import DatedRules.Fact
import DatedRules.Rule.Info

/-!
# Explanations

An `Evaluated` is a value with the rule that yielded it and an explanation of everything that went
into it: a tree whose inner nodes are the results of rules and whose leaves are facts. The values in
the tree are texts, since rules of one graph may yield values of different types.

`Node.visits` lists the nodes of a tree from the top down and from left to right, each with its
depth; facts, references and the lines of the text are read off that list.
-/

namespace DatedRules

/-- An explanation: a fact, or the result of a rule with its own explanation. -/
inductive Node
  | fact (value source description : String)
  | rule (info : RuleInfo) (kind : Kind) (value : String) (children : List Node)

namespace Node

/-- A node by itself. -/
inductive Label
  | fact (value source description : String)
  | rule (info : RuleInfo) (kind : Kind) (value : String)
deriving DecidableEq

mutual

/-- The nodes below and including one at a given depth. -/
def visits (depth : Nat) : Node → List (Nat × Label)
  | fact value source description => [(depth, .fact value source description)]
  | rule info kind value children =>
    (depth, .rule info kind value) :: visitsAll (depth + 1) children

/-- The nodes of several trees at a given depth. -/
def visitsAll (depth : Nat) : List Node → List (Nat × Label)
  | [] => []
  | n :: ns => visits depth n ++ visitsAll depth ns

end

mutual

/-- The number of rules on the longest way down. -/
def height : Node → Nat
  | fact _ _ _ => 0
  | rule _ _ _ children => heightAll children + 1

/-- The largest height of several trees. -/
def heightAll : List Node → Nat
  | [] => 0
  | n :: ns => Nat.max (height n) (heightAll ns)

end

/-- The line that shows a node, indented by two spaces for each level. -/
def line (depth : Nat) (label : Label) : String :=
  String.ofList (List.replicate (2 * depth) ' ') ++
    match label with
    | .fact value source description =>
      "fact " ++ value ++ " (" ++ description ++ ") from " ++ source
    | .rule info kind value =>
      info.description ++ " = " ++ value ++ " [" ++ kind.name ++ " " ++ info.reference.toText ++
        ", valid from " ++ info.validFrom.toText ++ "]"

end Node

/-- A rule's value with everything that went into it. -/
structure Evaluated (τ : ValueType) where
  value : τ.Carrier
  rule : RuleInfo
  kind : Kind
  children : List Node

namespace Evaluated

variable {τ : ValueType}

/-- The explanation of the value. -/
def toNode (e : Evaluated τ) : Node := .rule e.rule e.kind (τ.render e.value) e.children

/-- The number of rules on the longest way down to a fact. -/
def depth (e : Evaluated τ) : Nat := e.toNode.height

/-- All facts, from left to right: value, source and description. -/
def facts (e : Evaluated τ) : List (Fact String) :=
  (e.toNode.visits 0).filterMap fun
    | (_, .fact value source description) => some ⟨value, source, description⟩
    | _ => none

/-- The references of this rule and every rule below, once for each use. -/
def references (e : Evaluated τ) : List Reference :=
  (e.toNode.visits 0).filterMap fun
    | (_, .rule info _ _) => some info.reference
    | _ => none

/-- The lines of the explanation, one for each node. -/
def lines (e : Evaluated τ) : List String :=
  (e.toNode.visits 0).map fun v => Node.line v.1 v.2

/-- The explanation as text. -/
def toText (e : Evaluated τ) : String := String.join (e.lines.map (· ++ "\n"))

end Evaluated

end DatedRules
