import DatedRules.Decimal.Basic

/-!
# Rounding

`roundHalfEven n d` is the whole number nearest to `n / d`, the even one of two equally near.
`Rounding.apply` brings a decimal down to a number of places under one of seven strategies and
leaves a decimal alone that has no more places than asked for.
-/

namespace DatedRules

/-- The whole number nearest to `n / d`; half-way cases go to the even neighbour. -/
def roundHalfEven (n d : Nat) : Nat :=
  let q := n / d
  let r := n % d
  if d < 2 * r ∨ (2 * r = d ∧ q % 2 = 1) then q + 1 else q

/-- What becomes of the digits that rounding drops. -/
inductive Strategy
  | midpointNearestEven
  | midpointAwayFromZero
  | midpointTowardZero
  | toZero
  | awayFromZero
  | toNegativeInfinity
  | toPositiveInfinity
deriving DecidableEq, Repr

/-- Whether a magnitude with whole part `q` and a remainder `r` out of `d` is rounded up. -/
def Strategy.up (strategy : Strategy) (negative : Bool) (q r d : Nat) : Bool :=
  match strategy with
  | .midpointNearestEven => d < 2 * r || (2 * r == d && q % 2 == 1)
  | .midpointAwayFromZero => d ≤ 2 * r
  | .midpointTowardZero => d < 2 * r
  | .toZero => false
  | .awayFromZero => 0 < r
  | .toNegativeInfinity => negative && 0 < r
  | .toPositiveInfinity => !negative && 0 < r

/-- A number of decimal places and a strategy. -/
structure Rounding where
  places : Nat
  strategy : Strategy
deriving DecidableEq

namespace Rounding

/-- Rounding to whole units. -/
def whole (strategy : Strategy) : Rounding := ⟨0, strategy⟩

theorem quotient_bound {m d : Nat} (hm : m < 2 ^ 96) (hd : 10 ≤ d) : m / d + 1 < 2 ^ 96 := by
  have h : m / d ≤ m / 10 := Nat.div_le_div_left hd (by decide)
  omega

theorem step_bound (up : Bool) {q : Nat} (h : q + 1 < 2 ^ 96) :
    (if up then q + 1 else q) < 2 ^ 96 := by
  split <;> omega

theorem ten_le_pow {k : Nat} (hk : 0 < k) : 10 ≤ 10 ^ k := by
  calc 10 = 10 ^ 1 := rfl
    _ ≤ 10 ^ k := Nat.pow_le_pow_right (by decide) hk

/-- Rounds to exactly `places` decimals a decimal that has more. A number that is not zero and
rounds to zero loses its sign. -/
def apply (r : Rounding) (a : Decimal) : Decimal :=
  if h : a.scale ≤ r.places then a
  else
    let d := 10 ^ (a.scale - r.places)
    let q := a.mantissa / d
    let m := if r.strategy.up a.negative q (a.mantissa % d) d then q + 1 else q
    have hm : m < 2 ^ 96 := step_bound _ (quotient_bound a.mantissa_lt (ten_le_pow (by omega)))
    have hs : r.places ≤ 28 := by have := a.scale_le; omega
    ⟨a.negative && (m != 0 || a.mantissa == 0), m, r.places, hm, hs⟩

theorem apply_of_le {r : Rounding} {a : Decimal} (h : a.scale ≤ r.places) : r.apply a = a := by
  simp [apply, h]

theorem scale_apply (r : Rounding) (a : Decimal) : (r.apply a).scale ≤ r.places := by
  unfold apply
  split
  · assumption
  · exact Nat.le_refl _

end Rounding

end DatedRules
