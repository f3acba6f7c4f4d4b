/-!
# Decimal digits

Numbers written with the ten ASCII digits, on lists of characters: `digits n` writes a number
without leading zeros, `padded width n` with as many as fill the width, and `ofDigits?` reads a
string of digits back.
-/

namespace DatedRules.Text

/-- Powers are those of the core library also where a module knows of powers in monoids. -/
@[default_instance 20000]
instance (priority := 20000) powNat {α : Type} [NatPow α] : Pow α Nat := instPowNat

/-- The value of an ASCII digit. -/
def digit? (c : Char) : Option Nat :=
  if '0' ≤ c ∧ c ≤ '9' then some (c.toNat - '0'.toNat) else none

/-- The digits of a number, without leading zeros. -/
def digits (n : Nat) : List Char := Nat.toDigits 10 n

/-- The digits of a number, with leading zeros up to the width. -/
def padded (width n : Nat) : List Char :=
  List.replicate (width - (digits n).length) '0' ++ digits n

/-- Reads on from a number read so far. -/
def ofDigitsFrom? (n : Nat) : List Char → Option Nat
  | [] => some n
  | c :: cs => (digit? c).bind fun d => ofDigitsFrom? (n * 10 + d) cs

/-- The number that the characters write, if all of them are digits and there is one. -/
def ofDigits? (cs : List Char) : Option Nat :=
  if cs.isEmpty then none else ofDigitsFrom? 0 cs

end DatedRules.Text
