import DatedRules.Provenance
import DatedRules.Rule.Basic

/-!
# Evaluation

A rule is evaluated on a basis and for a date. It fails, for this date, where a choice has no valid
variant or where a product leaves the range of decimals; the failure of the first rule that fails,
children before parents and left before right, is the failure of the whole.

Beside failures there is the overflow of a sum or difference inside a combining function, which is
no finding about a rule but ends the computation.
-/

namespace DatedRules

/-- Why a rule has no value on a date. -/
inductive Reason
  | noValidVariant
  | overflow
deriving DecidableEq

def Reason.name : Reason → String
  | noValidVariant => "no_valid_variant"
  | overflow => "overflow"

/-- A rule that has no value on a date. -/
structure Failure where
  reason : Reason
  date : Date
  rule : RuleInfo
deriving DecidableEq

def Failure.message (f : Failure) : String :=
  match f.reason with
  | .noValidVariant =>
    "no variant of rule " ++ f.rule.reference.toText ++ " is valid on " ++ f.date.toText
  | .overflow =>
    "arithmetic overflow in rule " ++ f.rule.reference.toText ++ " on " ++ f.date.toText

/-- What keeps an evaluation from its value. -/
inductive Stop
  | failure (f : Failure)
  | overflow (o : Decimal.Overflow)
deriving DecidableEq

namespace Rule

variable {G : Type}

/-- A fact as the explanation of a value. -/
def leaf {τ : ValueType} (f : Fact τ.Carrier) : Node :=
  .fact (τ.render f.value) f.source f.description

/-- The result of a rule that reads one fact. -/
def evaluatedFact {τ : ValueType} (info : RuleInfo) (kind : Kind) (f : Fact τ.Carrier) :
    Evaluated τ :=
  ⟨f.value, info, kind, [leaf f]⟩

/-- A constant is its own fact, with the rule as its source. -/
def constantFact {α : Type} (info : RuleInfo) (value : α) : Fact α :=
  ⟨value, "rule:" ++ info.reference.toText, info.description⟩

/-- The result of applying a combining function. -/
def applied {τ : ValueType} (info : RuleInfo) (children : List Node)
    (value : Except Decimal.Overflow τ.Carrier) : Except Stop (Evaluated τ) :=
  match value with
  | .ok v => .ok ⟨v, info, .combine, children⟩
  | .error o => .error (.overflow o)

/-- The results of several rules, or the first stop among them. -/
def collect {α : Type} : List (Except Stop α) → Except Stop (List α)
  | [] => .ok []
  | r :: rs => do
    let a ← r
    let as ← collect rs
    return a :: as

/-- The last of several candidates that is valid on a date. -/
def selected? {n : Nat} (validFrom : Fin n → Date) (date : Date) : Option (Fin n) :=
  (List.finRange n).reverse.find? fun i => validFrom i ≤ date

/-- The value of a rule on a date, with its explanation. -/
def evaluate (g : G) (date : Date) : {τ : ValueType} → Rule G τ → Except Stop (Evaluated τ)
  | _, constant info value => .ok (evaluatedFact info .constant (constantFact info value))
  | _, extract info read => .ok (evaluatedFact info .extract (read g))
  | _, extractAt info read => .ok (evaluatedFact info .extractAt ((read g).on date))
  | _, combine1 info a f => do
    let x ← a.evaluate g date
    applied info [x.toNode] (f x.value)
  | _, combine2 info a b f => do
    let x ← a.evaluate g date
    let y ← b.evaluate g date
    applied info [x.toNode, y.toNode] (f x.value y.value)
  | _, combine3 info a b c f => do
    let x ← a.evaluate g date
    let y ← b.evaluate g date
    let z ← c.evaluate g date
    applied info [x.toNode, y.toNode, z.toNode] (f x.value y.value z.value)
  | _, product info _ factors => do
    let xs ← collect (List.ofFn fun i => (factors i).evaluate g date)
    match Decimal.product (xs.map (·.value)) with
    | some v => .ok ⟨v, info, .multiply, xs.map Evaluated.toNode⟩
    | none => .error (.failure ⟨.overflow, date, info⟩)
  | _, variants info _ candidates =>
    match selected? (fun i => (candidates i).validFrom) date with
    | some i => do
      let x ← (candidates i).evaluate g date
      return ⟨x.value, info, .latestValidVariant, [x.toNode]⟩
    | none => .error (.failure ⟨.noValidVariant, date, info⟩)

end Rule

end DatedRules
