import DatedRules.Decimal.Rounding

/-!
# Decimal arithmetic

Sums, differences, products and quotients are worked out exactly and then brought into the range of
`Decimal`, dropping as few decimal places as that takes (`Decimal.fit`); where dropping all of them
is not enough the operation overflows and has no result.

A quotient is worked out by long division, up to nine decimal places at a time
(`Decimal.longDivision`), and has the trailing zeros taken off that the division brought in.
-/

namespace DatedRules

namespace Decimal

/-- The fewest decimal places to drop from `m / 10 ^ s` so that at most 28 are left and the whole
part of what is left stays below `2 ^ 96`. -/
def surplus? (m s : Nat) : Option Nat :=
  (List.range (s + 1)).find? fun k => s - k ≤ 28 && m / 10 ^ k < 2 ^ 96

/-- Mantissa and scale in range for the magnitude `m / 10 ^ s`, rounded half to even if places have
to go. Should rounding reach `2 ^ 96`, one more place goes. -/
def fit (m s : Nat) : Option (Nat × Nat) :=
  match surplus? m s with
  | none => none
  | some k =>
    let q := roundHalfEven m (10 ^ k)
    if q < 2 ^ 96 then some (q, s - k)
    else if k < s then some (roundHalfEven q 10, s - k - 1)
    else none

/-- The product. Two mantissas of at most 32 bits with more than 47 places between them give zero,
and so does every product with zero; among such small factors a product that rounds to zero has no
sign. -/
def mul? (a b : Decimal) : Option Decimal :=
  if a.isZero || b.isZero then some zero
  else
    let s := a.scale + b.scale
    let small := a.mantissa < 2 ^ 32 && b.mantissa < 2 ^ 32
    if small && 47 < s then some zero
    else
      match fit (a.mantissa * b.mantissa) s with
      | none => none
      | some (m, t) => ofParts? ((a.negative != b.negative) && !(small && m == 0)) m t

/-- The sum. With zero as one operand it is the other operand as it stands. -/
def add? (a b : Decimal) : Option Decimal :=
  if a.isZero then some b
  else if b.isZero then some a
  else
    let s := Nat.max a.scale b.scale
    let n := a.signed * 10 ^ (s - a.scale) + b.signed * 10 ^ (s - b.scale)
    match fit n.natAbs s with
    | none => none
    | some (m, t) => ofParts? (n < 0) m t

/-- The difference: the sum with the negated second operand, where zero is not negated. -/
def sub? (a b : Decimal) : Option Decimal :=
  add? a (if b.isZero then b else b.neg)

/-- A sum or a difference that no decimal can hold. -/
inductive Overflow
  | sum
  | difference
deriving DecidableEq

def Overflow.message : Overflow → String
  | sum => "Addition overflowed"
  | difference => "Subtraction overflowed"

/-- The sum, where it has to be one. -/
def add (a b : Decimal) : Except Overflow Decimal :=
  match add? a b with
  | some c => .ok c
  | none => .error .sum

/-- The difference, where it has to be one. -/
def sub (a b : Decimal) : Except Overflow Decimal :=
  match sub? a b with
  | some c => .ok c
  | none => .error .difference

/-- A quotient in the making: digits found so far, their scale, and whether the division ever left
a remainder. -/
structure Quotient where
  digits : Nat
  scale : Int
  inexact : Bool

/-- Takes the last digit off digits that outgrew the range; the rest of the division, which is not
zero when `more` holds, breaks a tie upwards. -/
def Quotient.shorten (digits : Nat) (scale : Int) (more inexact : Bool) : Option Quotient :=
  if scale < 1 then none
  else
    let q := digits / 10
    let r := digits % 10
    let up := 5 < r || (r == 5 && (more || q % 2 == 1))
    some ⟨if up then q + 1 else q, scale - 1, inexact⟩

/-- How many places, at most `room`, digits can be moved by without leaving the range. -/
def headroom (digits room : Nat) : Nat :=
  ((List.range (room + 1)).reverse.find? fun p => digits * 10 ^ p < 2 ^ 96).getD 0

/-- Long division by `d` with remainder `r` left at `scale`. Each round but the last moves the scale
up by at least one place and none moves it past 28, so that from a scale of at least `-28` there are
at most 57 rounds. -/
def longDivision (d : Nat) : (rounds : Nat) → (digits r : Nat) → (scale : Int) → (inexact : Bool) →
    Option Quotient
  | 0, _, _, _, _ => none
  | rounds + 1, digits, r, scale, inexact =>
    if r = 0 ∧ 0 ≤ scale then some ⟨digits, scale, inexact⟩
    else
      let inexact := inexact || r != 0
      let p := if r = 0 then Nat.min 9 (-scale).toNat
        else headroom digits (Nat.min 9 (28 - scale).toNat)
      if r ≠ 0 ∧ p < 9 ∧ scale + p < 0 then none
      else if p = 0 then
        let q := if d < 2 * r ∨ (2 * r = d ∧ digits % 2 = 1) then digits + 1 else digits
        if q < 2 ^ 96 then some ⟨q, scale, inexact⟩ else Quotient.shorten q scale true inexact
      else
        let moved := digits * 10 ^ p
        let q := moved + r * 10 ^ p / d
        let rest := r * 10 ^ p % d
        if 2 ^ 96 ≤ moved then none
        else if 2 ^ 96 ≤ q then Quotient.shorten q (scale + p) (rest != 0) inexact
        else longDivision d rounds q rest (scale + p) inexact

/-- Drops `k` trailing zeros, if there are as many. -/
def dropZeros (k : Nat) (q : Nat × Nat) : Nat × Nat :=
  if k ≤ q.2 ∧ q.1 % 10 ^ k = 0 then (q.1 / 10 ^ k, q.2 - k) else q

/-- Drops eight trailing zeros at a time while the digits are also divisible by `2 ^ 32`. -/
def dropEights : (rounds : Nat) → Nat × Nat → Nat × Nat
  | 0, q => q
  | rounds + 1, (m, s) =>
    if 8 ≤ s ∧ m % 2 ^ 32 = 0 ∧ m % 10 ^ 8 = 0 then dropEights rounds (m / 10 ^ 8, s - 8)
    else (m, s)

/-- Takes off trailing zeros: eights first, then at most four, two and one more. -/
def trim (m s : Nat) : Nat × Nat :=
  dropZeros 1 (dropZeros 2 (dropZeros 4 (dropEights 3 (m, s))))

/-- The quotient; none for a divisor of zero. A quotient that rounds to zero has no sign. -/
def div? (a b : Decimal) : Option Decimal :=
  if b.isZero then none
  else if a.isZero then some zero
  else
    let d := b.mantissa
    match longDivision d 58 (a.mantissa / d) (a.mantissa % d) ((a.scale : Int) - b.scale) false with
    | none => none
    | some q =>
      let t := if q.inexact then trim q.digits q.scale.toNat else (q.digits, q.scale.toNat)
      ofParts? ((a.negative != b.negative) && t.1 != 0) t.1 t.2

/-- The product of all values, one by one from the left; one if there are none. -/
def product (values : List Decimal) : Option Decimal :=
  values.foldlM mul? one

/-- The quotient, rounded. -/
def divide (a b : Decimal) (rounding : Rounding) : Option Decimal :=
  (a.div? b).map rounding.apply

/-- So many percent of a value, rounded. -/
def percentOf (value percent : Decimal) (rounding : Rounding) : Option Decimal :=
  (value.mul? percent).bind fun p => (p.div? hundred).map rounding.apply

end Decimal

end DatedRules
