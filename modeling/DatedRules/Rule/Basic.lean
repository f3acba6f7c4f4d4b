import DatedRules.Fact
import DatedRules.Rule.Graph
import DatedRules.Schedule

/-!
# Rules

A rule turns a basis of facts, of any type `G`, into a value of a `ValueType`. It is a constant,
reads a fact or the fact of a date, combines the values of one to three rules by a function,
multiplies the values of rules, or stands for the latest of several variants that is valid on a
date.

A combining function may use sums and differences of decimals, which may overflow; one that never
does so is called total (`Rule.Total`).

The constructors take any rules; `Rule.multiply` and `Rule.latestValidVariant` in
`DatedRules.Rule.Definition` see to it that products have two factors at least and that variants
stand in order.
-/

namespace DatedRules

/-- A rule from a basis `G` to values of a type. -/
inductive Rule (G : Type) : ValueType → Type 1
  | constant {τ : ValueType} (info : RuleInfo) (value : τ.Carrier) : Rule G τ
  | extract {τ : ValueType} (info : RuleInfo) (read : G → Fact τ.Carrier) : Rule G τ
  | extractAt {τ : ValueType} (info : RuleInfo) (read : G → Varying (Fact τ.Carrier)) : Rule G τ
  | combine1 {α τ : ValueType} (info : RuleInfo) (a : Rule G α)
      (f : α.Carrier → Except Decimal.Overflow τ.Carrier) : Rule G τ
  | combine2 {α β τ : ValueType} (info : RuleInfo) (a : Rule G α) (b : Rule G β)
      (f : α.Carrier → β.Carrier → Except Decimal.Overflow τ.Carrier) : Rule G τ
  | combine3 {α β γ τ : ValueType} (info : RuleInfo) (a : Rule G α) (b : Rule G β) (c : Rule G γ)
      (f : α.Carrier → β.Carrier → γ.Carrier → Except Decimal.Overflow τ.Carrier) : Rule G τ
  | product (info : RuleInfo) (n : Nat) (factors : Fin n → Rule G .decimal) : Rule G .decimal
  | variants {τ : ValueType} (info : RuleInfo) (n : Nat) (candidates : Fin n → Rule G τ) : Rule G τ

namespace Rule

variable {G : Type}

def info : {τ : ValueType} → Rule G τ → RuleInfo
  | _, constant info _ | _, extract info _ | _, extractAt info _ | _, combine1 info _ _
  | _, combine2 info _ _ _ | _, combine3 info _ _ _ _ | _, product info _ _
  | _, variants info _ _ => info

def kind : {τ : ValueType} → Rule G τ → Kind
  | _, constant _ _ => .constant
  | _, extract _ _ => .extract
  | _, extractAt _ _ => .extractAt
  | _, combine1 _ _ _ | _, combine2 _ _ _ _ | _, combine3 _ _ _ _ _ => .combine
  | _, product _ _ _ => .multiply
  | _, variants _ _ _ => .latestValidVariant

def validFrom {τ : ValueType} (r : Rule G τ) : Date := r.info.validFrom

def reference {τ : ValueType} (r : Rule G τ) : Reference := r.info.reference

/-- The short form of a rule. -/
def summary {τ : ValueType} (r : Rule G τ) : String := r.info.summary r.kind

/-- The shape of a rule. -/
def graph : {τ : ValueType} → Rule G τ → Graph
  | _, constant info _ => .node info .constant []
  | _, extract info _ => .node info .extract []
  | _, extractAt info _ => .node info .extractAt []
  | _, combine1 info a _ => .node info .combine [a.graph]
  | _, combine2 info a b _ => .node info .combine [a.graph, b.graph]
  | _, combine3 info a b c _ => .node info .combine [a.graph, b.graph, c.graph]
  | _, product info _ factors => .node info .multiply (List.ofFn fun i => (factors i).graph)
  | _, variants info _ candidates =>
    .node info .latestValidVariant (List.ofFn fun i => (candidates i).graph)

/-- Every date from which a rule of the graph is valid. -/
def breakpoints {τ : ValueType} (r : Rule G τ) : DateSet := r.graph.breakpoints

/-- The references of all rules of the graph, each once. -/
def appliedRules {τ : ValueType} (r : Rule G τ) : List Reference := r.graph.appliedRules

/-- The dates on which facts read by the rule change. -/
def dataDates (g : G) : {τ : ValueType} → Rule G τ → List Date
  | _, constant _ _ => []
  | _, extract _ _ => []
  | _, extractAt _ read => (read g).breakpoints.toList
  | _, combine1 _ a _ => a.dataDates g
  | _, combine2 _ a b _ => a.dataDates g ++ b.dataDates g
  | _, combine3 _ a b c _ => a.dataDates g ++ b.dataDates g ++ c.dataDates g
  | _, product _ _ factors => (List.ofFn fun i => (factors i).dataDates g).flatten
  | _, variants _ _ candidates => (List.ofFn fun i => (candidates i).dataDates g).flatten

/-- The set of the dates on which facts read by the rule change. -/
def dataBreakpoints {τ : ValueType} (r : Rule G τ) (g : G) : DateSet :=
  DateSet.ofList (r.dataDates g)

/-- Whether no combining function of the graph ever overflows. -/
def Total : {τ : ValueType} → Rule G τ → Prop
  | _, constant _ _ | _, extract _ _ | _, extractAt _ _ => True
  | _, combine1 _ a f => a.Total ∧ ∀ x, ∃ v, f x = .ok v
  | _, combine2 _ a b f => a.Total ∧ b.Total ∧ ∀ x y, ∃ v, f x y = .ok v
  | _, combine3 _ a b c f => a.Total ∧ b.Total ∧ c.Total ∧ ∀ x y z, ∃ v, f x y z = .ok v
  | _, product _ _ factors => ∀ i, (factors i).Total
  | _, variants _ _ candidates => ∀ i, (candidates i).Total

/-- Whether every product of the graph has two factors or more and every list of variants is not
empty and in ascending order of their dates. -/
def WellFormed : {τ : ValueType} → Rule G τ → Prop
  | _, constant _ _ | _, extract _ _ | _, extractAt _ _ => True
  | _, combine1 _ a _ => a.WellFormed
  | _, combine2 _ a b _ => a.WellFormed ∧ b.WellFormed
  | _, combine3 _ a b c _ => a.WellFormed ∧ b.WellFormed ∧ c.WellFormed
  | _, product _ n factors => 2 ≤ n ∧ ∀ i, (factors i).WellFormed
  | _, variants _ n candidates =>
    0 < n ∧ (∀ i j, i < j → (candidates i).validFrom < (candidates j).validFrom) ∧
      ∀ i, (candidates i).WellFormed

end Rule

end DatedRules
