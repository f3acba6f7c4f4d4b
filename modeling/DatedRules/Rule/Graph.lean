import DatedRules.Calendar.DateSet
import DatedRules.Rule.Info

/-!
# Rule graphs

The graph of a rule is its shape: the information and kind of the rule and the graphs of the rules
it is built from, in order. `Graph.preorder` lists the nodes from the top down and from left to
right, each with its depth; the breakpoints, the inventory of references and the canonical text are
read off that list.
-/

namespace DatedRules

/-- A rule's shape, without what it computes. -/
inductive Graph
  | node (info : RuleInfo) (kind : Kind) (children : List Graph)

namespace Graph

/-- A node by itself, at its depth below the top. -/
structure Visit where
  depth : Nat
  info : RuleInfo
  kind : Kind
deriving DecidableEq

def info : Graph → RuleInfo
  | node info _ _ => info

def kind : Graph → Kind
  | node _ kind _ => kind

def children : Graph → List Graph
  | node _ _ children => children

mutual

/-- The nodes below and including one at a given depth. -/
def visits (depth : Nat) : Graph → List Visit
  | node info kind children => ⟨depth, info, kind⟩ :: visitsAll (depth + 1) children

/-- The nodes of several graphs at a given depth. -/
def visitsAll (depth : Nat) : List Graph → List Visit
  | [] => []
  | g :: gs => visits depth g ++ visitsAll depth gs

end

/-- All nodes, parents before children and left before right. -/
def preorder (g : Graph) : List Visit := g.visits 0

/-- Every date from which a rule of the graph is valid. -/
def breakpoints (g : Graph) : DateSet := DateSet.ofList (g.preorder.map (·.info.validFrom))

/-- The reference of every node. -/
def references (g : Graph) : List Reference := g.preorder.map (·.info.reference)

/-- The list without repetitions, each element where it first occurs. -/
def firsts (seen : List Reference) : List Reference → List Reference
  | [] => []
  | r :: rs => if r ∈ seen then firsts seen rs else r :: firsts (r :: seen) rs

/-- The references that occur in the graph, each once, in order of first occurrence. -/
def appliedRules (g : Graph) : List Reference := firsts [] g.references

/-- A node's line in the canonical text. -/
def Visit.line (v : Visit) : String :=
  toString v.depth ++ "|" ++ v.kind.name ++ "|" ++ v.info.reference.id ++ "|" ++
    v.info.reference.version ++ "|" ++ v.info.validFrom.toText ++ "|" ++ v.info.description ++ "\n"

/-- The canonical text of a graph: a line for each node. -/
def canonicalText (g : Graph) : String := String.join (g.preorder.map Visit.line)

end Graph

end DatedRules
