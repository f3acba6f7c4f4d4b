import DatedRules.Rule.Basic

/-!
# Defining rules

A product needs two factors, and a choice among variants needs one at least and no two that are
valid from the same date. The variants are put into the order of their dates, so that it does not
matter in which order they are given.
-/

namespace DatedRules

/-- What is wrong with the parts of a rule. -/
inductive DefinitionError
  | emptyCandidates (reference : Reference)
  | duplicateValidFrom (reference : Reference) (validFrom : Date)
  | tooFewOperands (reference : Reference) (required actual : Nat)
deriving DecidableEq

def DefinitionError.message : DefinitionError → String
  | .emptyCandidates reference => "rule " ++ reference.toText ++ " has no candidate variants"
  | .duplicateValidFrom reference validFrom =>
    "rule " ++ reference.toText ++ " has more than one candidate valid from " ++ validFrom.toText
  | .tooFewOperands reference required actual =>
    "rule " ++ reference.toText ++ " needs at least " ++ toString required ++ " operands, got " ++
      toString actual

/-- The first date of a list that the next one repeats. -/
def firstRepeat? : List Date → Option Date
  | d :: e :: ds => if d = e then some d else firstRepeat? (e :: ds)
  | _ => none

namespace Rule

variable {G : Type} {τ : ValueType}

/-- The product of the values of two rules or more. -/
def multiply (info : RuleInfo) (factors : List (Rule G .decimal)) :
    Except DefinitionError (Rule G .decimal) :=
  if factors.length < 2 then .error (.tooFewOperands info.reference 2 factors.length)
  else .ok (product info factors.length factors.get)

/-- Candidates in the order of their dates. -/
def inOrder (candidates : List (Rule G τ)) : List (Rule G τ) :=
  candidates.mergeSort fun a b => a.validFrom ≤ b.validFrom

/-- The candidate with the latest date that is not after the one asked for. -/
def latestValidVariant (info : RuleInfo) (candidates : List (Rule G τ)) :
    Except DefinitionError (Rule G τ) :=
  if candidates.isEmpty then .error (.emptyCandidates info.reference)
  else
    let sorted := inOrder candidates
    match firstRepeat? (sorted.map validFrom) with
    | some d => .error (.duplicateValidFrom info.reference d)
    | none => .ok (variants info sorted.length sorted.get)

/-- One more step on top of a rule. -/
def map {α : ValueType} (r : Rule G α) (info : RuleInfo)
    (f : α.Carrier → Except Decimal.Overflow τ.Carrier) : Rule G τ :=
  combine1 info r f

end Rule

end DatedRules
