import DatedRules.Text.Digits

/-!
# Decimals

A decimal is a sign, a mantissa below `2 ^ 96` and a scale of at most 28: it stands for
`± mantissa / 10 ^ scale`. Trailing zeros and the sign of zero belong to the representation, which
is what `=` compares; `Decimal.equal`, `Decimal.less` and the rest of the order look at the number
alone.
-/

namespace DatedRules

/-- A signed number with at most 28 decimal places. -/
structure Decimal where
  negative : Bool
  mantissa : Nat
  scale : Nat
  mantissa_lt : mantissa < 2 ^ 96
  scale_le : scale ≤ 28
deriving DecidableEq

namespace Decimal

/-- The decimal of these parts, if they are in range. -/
def ofParts? (negative : Bool) (mantissa scale : Nat) : Option Decimal :=
  if h : mantissa < 2 ^ 96 ∧ scale ≤ 28 then some ⟨negative, mantissa, scale, h.1, h.2⟩ else none

/-- The mantissa with its sign. -/
def signed (a : Decimal) : Int :=
  if a.negative then -(a.mantissa : Int) else a.mantissa

/-- A whole number in range. -/
def ofNat (n : Nat) (h : n < 2 ^ 96 := by decide) : Decimal :=
  ⟨false, n, 0, h, by decide⟩

def zero : Decimal := ofNat 0

def one : Decimal := ofNat 1

def hundred : Decimal := ofNat 100

instance : Inhabited Decimal := ⟨zero⟩

def isZero (a : Decimal) : Bool := a.mantissa == 0

/-- Changes the sign, that of zero included. -/
def neg (a : Decimal) : Decimal := { a with negative := !a.negative }

def abs (a : Decimal) : Decimal := { a with negative := false }

/-- Whether two decimals are the same number. -/
def equal (a b : Decimal) : Bool :=
  a.signed * 10 ^ b.scale == b.signed * 10 ^ a.scale

/-- Whether `a` is the smaller number. -/
def less (a b : Decimal) : Bool :=
  a.signed * 10 ^ b.scale < b.signed * 10 ^ a.scale

/-- The larger of two; of two equal numbers, the first. -/
def max (a b : Decimal) : Decimal := if less a b then b else a

/-- The smaller of two; of two equal numbers, the first. -/
def min (a b : Decimal) : Decimal := if less b a then b else a

theorem ofParts?_eq_some {n : Bool} {m s : Nat} {a : Decimal} (h : ofParts? n m s = some a) :
    a.negative = n ∧ a.mantissa = m ∧ a.scale = s := by
  unfold ofParts? at h
  split at h
  · simp only [Option.some.injEq] at h
    subst h
    exact ⟨rfl, rfl, rfl⟩
  · simp at h

theorem neg_neg (a : Decimal) : a.neg.neg = a := by
  simp [neg]

theorem signed_neg (a : Decimal) : a.neg.signed = -a.signed := by
  cases h : a.negative <;> simp [neg, signed, h]

end Decimal

end DatedRules
