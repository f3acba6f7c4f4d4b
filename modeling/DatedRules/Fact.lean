import DatedRules.Decimal.Text
import DatedRules.Text.Quoted

/-!
# Facts and types of values

A `ValueType` is a type of values together with their text, which explanations show. A `Fact` is a
value with the source it was read from and a description of what it is.
-/

namespace DatedRules

/-- A type of values with a text for each. -/
structure ValueType where
  Carrier : Type
  render : Carrier → String

namespace ValueType

/-- Decimals, with all their places. -/
abbrev decimal : ValueType := ⟨Decimal, Decimal.toText⟩

/-- Whole numbers of 64 bits. -/
abbrev integer : ValueType := ⟨Int64, fun n => toString n.toInt⟩

abbrev truth : ValueType := ⟨Bool, fun b => if b then "true" else "false"⟩

/-- Strings, quoted. -/
abbrev text : ValueType := ⟨String, Text.quoted⟩

end ValueType

/-- A value and where it comes from. -/
structure Fact (α : Type) where
  value : α
  source : String
  description : String
deriving DecidableEq

/-- Whether two facts agree, their values compared by `eq`. -/
def Fact.agrees {α : Type} (eq : α → α → Bool) (a b : Fact α) : Bool :=
  eq a.value b.value && a.source == b.source && a.description == b.description

end DatedRules
