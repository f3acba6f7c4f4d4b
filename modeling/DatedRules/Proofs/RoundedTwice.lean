import DatedRules.Proofs.Nearest

/-!
# Amounts rounded twice

`Rounding.apply` rounds the number that a decimal stands for (`Rounding.toRat_apply`), by one of the
seven strategies as they are commonly stated (`Strategy.round`). What `Decimal.divide` and
`Decimal.percentOf` give it is a quotient that has been rounded before, to the nearest number of as
many places as there is room for.

Between two boundaries, half-way marks for some strategies and numbers of so many places for others,
all numbers are rounded to one (`Strategy.round_eq_of_between`). A number that is not on a boundary
is so far from the next one that what it is nearest to is between the same two
(`Rounding.round_eq_of_nearestBeyond`). So the result is that of the exact quotient unless the first
rounding has ended on a boundary (`Decimal.divide_percentOf_rounded`). A quotient just below a half
may have ended there, and is rounded up then (`Decimal.divide_belowHalf_ne`).
-/

namespace DatedRules

/-- The whole number next to a number on the side of zero. -/
def inward (x : ℚ) : ℤ := if x < 0 then ⌈x⌉ else ⌊x⌋

/-- The whole number next to a number on the side away from zero. -/
def outward (x : ℚ) : ℤ := if x < 0 then ⌊x⌋ else ⌈x⌉

/-- The nearest whole number, or `tie` of two that are equally near. -/
def nearestOr (tie : ℤ) (x : ℚ) : ℤ :=
  if x - ⌊x⌋ < 1 / 2 then ⌊x⌋ else if 1 / 2 < x - ⌊x⌋ then ⌈x⌉ else tie

/-- The whole number that a strategy takes a number to. -/
def Strategy.round (strategy : Strategy) (x : ℚ) : ℤ :=
  match strategy with
  | .midpointNearestEven => nearestOr (if Even ⌊x⌋ then ⌊x⌋ else ⌈x⌉) x
  | .midpointAwayFromZero => nearestOr (outward x) x
  | .midpointTowardZero => nearestOr (inward x) x
  | .toZero => inward x
  | .awayFromZero => outward x
  | .toNegativeInfinity => ⌊x⌋
  | .toPositiveInfinity => ⌈x⌉

namespace Strategy

theorem round_intCast (strategy : Strategy) (n : ℤ) : strategy.round n = n := by
  cases strategy <;> simp [round, nearestOr, inward, outward]

theorem floor_ceil_of_between {x : ℚ} {k : ℤ} (h₁ : (k : ℚ) < x) (h₂ : x < k + 1) :
    ⌊x⌋ = k ∧ ⌈x⌉ = k + 1 := by
  constructor
  · exact Int.floor_eq_iff.2 ⟨h₁.le, h₂⟩
  · rw [Int.ceil_eq_iff]
    push_cast
    exact ⟨by linarith, h₂.le⟩

theorem up_zero (strategy : Strategy) (negative : Bool) (q : ℕ) {d : ℕ} (hd : 0 < d) :
    strategy.up negative q 0 d = false := by
  cases strategy <;> simp [up] <;> omega

/-- Where, from each whole number on, the strategy comes to a decision: half-way to the next one, or
at the whole number itself. -/
def boundary : Strategy → ℚ
  | .midpointNearestEven | .midpointAwayFromZero | .midpointTowardZero => 1 / 2
  | .toZero | .awayFromZero | .toNegativeInfinity | .toPositiveInfinity => 0

theorem boundary_eq (strategy : Strategy) : strategy.boundary = 1 / 2 ∨ strategy.boundary = 0 := by
  cases strategy <;> simp [boundary]

theorem nearestOr_eq (tie : ℤ) {x : ℚ} {k : ℤ} (h₁ : (k : ℚ) + 1 / 2 < x) (h₂ : x < k + 1 + 1 / 2) :
    nearestOr tie x = k + 1 := by
  unfold nearestOr
  rcases lt_or_ge x (k + 1) with hlt | hge
  · obtain ⟨hfloor, hceil⟩ := floor_ceil_of_between (x := x) (k := k) (by linarith) hlt
    rw [hfloor, hceil, if_neg (by linarith), if_pos (by linarith)]
  · have hfloor : ⌊x⌋ = k + 1 := by
      rw [Int.floor_eq_iff]
      push_cast
      exact ⟨hge, by linarith⟩
    rw [hfloor, if_pos (by push_cast; linarith)]

/-- Numbers between the same two boundaries are rounded to the same number. -/
theorem round_eq_of_between (strategy : Strategy) {x y : ℚ} {k : ℤ}
    (hx : k < x - strategy.boundary ∧ x - strategy.boundary < k + 1)
    (hy : k < y - strategy.boundary ∧ y - strategy.boundary < k + 1) :
    strategy.round x = strategy.round y := by
  obtain ⟨hx₁, hx₂⟩ := hx
  obtain ⟨hy₁, hy₂⟩ := hy
  have hmid : strategy.boundary = 1 / 2 → ∀ tie tie', nearestOr tie x = nearestOr tie' y := by
    intro hb tie tie'
    rw [hb] at hx₁ hx₂ hy₁ hy₂
    rw [nearestOr_eq tie (k := k) (by linarith) (by linarith),
      nearestOr_eq tie' (k := k) (by linarith) (by linarith)]
  have hdirected : strategy.boundary = 0 → ⌊x⌋ = ⌊y⌋ ∧ ⌈x⌉ = ⌈y⌉ ∧ (x < 0 ↔ y < 0) := by
    intro hb
    rw [hb, sub_zero] at hx₁ hx₂ hy₁ hy₂
    obtain ⟨hfx, hcx⟩ := floor_ceil_of_between hx₁ hx₂
    obtain ⟨hfy, hcy⟩ := floor_ceil_of_between hy₁ hy₂
    have hsign : ∀ z : ℚ, ⌊z⌋ = k → (z < 0 ↔ k < 0) := fun z hz => by
      rw [← hz, Int.floor_lt, Int.cast_zero]
    exact ⟨hfx.trans hfy.symm, hcx.trans hcy.symm, (hsign x hfx).trans (hsign y hfy).symm⟩
  cases strategy with
  | midpointNearestEven | midpointAwayFromZero | midpointTowardZero => exact hmid rfl _ _
  | toZero | awayFromZero | toNegativeInfinity | toPositiveInfinity =>
    obtain ⟨hf, hc, hs⟩ := hdirected rfl
    simp only [round, inward, outward, hf, hc, hs]

/-- A magnitude that leaves a remainder is rounded as its digits say. -/
theorem round_of_rest (strategy : Strategy) (negative : Bool) (q : ℕ) {r d : ℕ} (hr₀ : 0 < r)
    (hr : r < d) : (strategy.round (Decimal.signOf negative * ((q * d + r : ℕ) / d)) : ℚ) =
      Decimal.signOf negative * (if strategy.up negative q r d then q + 1 else q : ℕ) := by
  have hd : (0 : ℚ) < d := by exact_mod_cast Nat.zero_lt_of_lt hr
  have hsplit : ((q * d + r : ℕ) : ℚ) / d = q + r / d := by
    push_cast
    rw [add_div, mul_div_cancel_right₀ _ hd.ne']
  have hrest : (r : ℚ) / d < 1 := by
    rw [div_lt_one hd]
    exact_mod_cast hr
  have hrest' : (0 : ℚ) < r / d := div_pos (by exact_mod_cast hr₀) hd
  have hlow : (r : ℚ) / d < 1 / 2 ↔ 2 * r < d := by
    rw [div_lt_div_iff₀ hd two_pos, one_mul, mul_comm]
    exact_mod_cast Iff.rfl
  have hhigh : 1 / 2 < (r : ℚ) / d ↔ d < 2 * r := by
    rw [div_lt_div_iff₀ two_pos hd, one_mul, mul_comm]
    exact_mod_cast Iff.rfl
  rw [hsplit]
  generalize (r : ℚ) / d = f at *
  cases negative
  · obtain ⟨hfloor, hceil⟩ := floor_ceil_of_between (x := q + f) (k := q)
      (by push_cast; linarith) (by push_cast; linarith)
    have hpos : ¬ ((q : ℚ) + f < 0) := not_lt.2 (by positivity)
    have hfrac : (q : ℚ) + f - (q : ℤ) = f := by push_cast; ring
    have hround : strategy.round (q + f) = (if strategy.up false q r d then q + 1 else q : ℕ) := by
      cases strategy <;>
        simp only [round, nearestOr, inward, outward, up, hfloor, hceil, hpos, hfrac, hlow,
          hhigh] <;> grind
    rw [Decimal.signOf, if_neg (by decide), one_mul, one_mul, hround, Int.cast_natCast]
  · obtain ⟨hfloor, hceil⟩ := floor_ceil_of_between (x := -(q + f)) (k := -(q + 1))
      (by push_cast; linarith) (by push_cast; linarith)
    have hneg : -((q : ℚ) + f) < 0 := by linarith
    have hfrac : -((q : ℚ) + f) - (-(q + 1) : ℤ) = 1 - f := by push_cast; ring
    have hlow' : 1 - f < 1 / 2 ↔ d < 2 * r := by
      rw [← hhigh]
      constructor <;> intro <;> linarith
    have hhigh' : 1 / 2 < 1 - f ↔ 2 * r < d := by
      rw [← hlow]
      constructor <;> intro <;> linarith
    have hround : strategy.round (-(q + f)) =
        -(if strategy.up true q r d then q + 1 else q : ℕ) := by
      cases strategy <;>
        simp only [round, nearestOr, inward, outward, up, hfloor, hceil, hneg, hfrac, hlow',
          hhigh'] <;> grind
    rw [Decimal.signOf, if_pos rfl, neg_one_mul, neg_one_mul, hround, Int.cast_neg,
      Int.cast_natCast]

/-- Rounding a magnitude as its digits say. -/
theorem round_of_digits (strategy : Strategy) (negative : Bool) (m : ℕ) {d : ℕ} (hd : 0 < d) :
    (strategy.round (Decimal.signOf negative * ((m : ℚ) / d)) : ℚ) = Decimal.signOf negative *
      (if strategy.up negative (m / d) (m % d) d then m / d + 1 else m / d : ℕ) := by
  have hsplit := Nat.div_add_mod' m d
  rcases Nat.eq_zero_or_pos (m % d) with hzero | hpos
  · have hm : (m : ℚ) / d = (m / d : ℕ) := by
      rw [div_eq_iff (by exact_mod_cast hd.ne'), ← Nat.cast_mul,
        Nat.div_mul_cancel (Nat.dvd_of_mod_eq_zero hzero)]
    obtain ⟨z, hz⟩ : ∃ z : ℤ, Decimal.signOf negative * (m / d : ℕ) = z :=
      ⟨if negative then -(m / d : ℕ) else (m / d : ℕ), by
        generalize m / d = q
        cases negative <;> simp [Decimal.signOf]⟩
    rw [hzero, up_zero strategy negative _ hd, if_neg (by decide), hm, hz, round_intCast]
  · have hrest := strategy.round_of_rest negative (m / d) hpos (Nat.mod_lt m hd)
    rwa [hsplit] at hrest

end Strategy

namespace Rounding

/-- The number of so many places that a number is rounded to. -/
def round (r : Rounding) (x : ℚ) : ℚ :=
  r.strategy.round (x * (10 ^ r.places : ℕ)) / (10 ^ r.places : ℕ)

variable (r : Rounding)

theorem toRat_apply (a : Decimal) : (r.apply a).toRat = r.round a.toRat := by
  have hpos := Decimal.pow_ten_pos r.places
  unfold round
  rw [eq_div_iff hpos.ne']
  by_cases hs : a.scale ≤ r.places
  · rw [apply_of_le hs, Decimal.toRat_eq_at hs, div_mul_cancel₀ _ hpos.ne', Strategy.round_intCast]
  · have hpow : 10 ^ a.scale = 10 ^ (a.scale - r.places) * 10 ^ r.places := by
      rw [← Nat.pow_add, Nat.sub_add_cancel (by omega)]
    have hdigits : a.toRat * (10 ^ r.places : ℕ) = Decimal.signOf a.negative *
        ((a.mantissa : ℚ) / (10 ^ (a.scale - r.places) : ℕ)) := by
      rw [Decimal.toRat_eq_signOf_mul, hpow, Nat.cast_mul, ← div_div, mul_assoc,
        div_mul_cancel₀ _ hpos.ne']
    rw [hdigits, Strategy.round_of_digits _ _ _ (Nat.pow_pos (by decide)),
      Decimal.toRat_eq_signOf_mul]
    simp only [apply, hs, dite_false]
    rw [Decimal.signOf_and_mul (by simp_all), mul_assoc, div_mul_cancel₀ _ hpos.ne']

/-- Whether the strategy comes to a decision at the number. -/
def OnBoundary (x : ℚ) : Prop := ∃ k : ℤ, x * (10 ^ r.places : ℕ) - r.strategy.boundary = k

/-- A multiple of `1 / M` that is not whole lies between the same whole numbers as what is at most
half as far from it as the next one. -/
theorem exists_between_of_near {x y : ℚ} {n : ℤ} {M : ℕ} (hM : 0 < M) (hy : y * M = n)
    (hx : |y - x| * M ≤ 1 / 2) (hwhole : ∀ k : ℤ, y ≠ k) :
    ∃ k : ℤ, (k < y ∧ y < k + 1) ∧ k < x ∧ x < k + 1 := by
  have hpos : (0 : ℚ) < M := by exact_mod_cast hM
  have hdist : |(y - x) * M| ≤ 1 / 2 := by rwa [abs_mul, abs_of_pos hpos]
  rw [sub_mul, hy] at hdist
  obtain ⟨hup, hdown⟩ := abs_le.1 hdist
  have hsplit := Int.ediv_mul_add_emod n M
  have hrest : n % M ≠ 0 := fun hzero => by
    rw [hzero, add_zero] at hsplit
    refine hwhole (n / M) (mul_right_cancel₀ hpos.ne' ?_)
    rw [hy]
    exact_mod_cast hsplit.symm
  have hnonneg := Int.emod_nonneg n (show (M : ℤ) ≠ 0 by omega)
  have hlt := Int.emod_lt_of_pos n (show (0 : ℤ) < M by omega)
  have hn : ((n / M : ℤ) : ℚ) * M + (n % M : ℤ) = n := by exact_mod_cast hsplit
  have hlow : (1 : ℚ) ≤ (n % M : ℤ) := by exact_mod_cast (show 1 ≤ n % M by omega)
  have hhigh : ((n % M : ℤ) : ℚ) + 1 ≤ M := by exact_mod_cast (show n % M + 1 ≤ M by omega)
  refine ⟨n / M, ⟨?_, ?_⟩, ?_, ?_⟩ <;> refine lt_of_mul_lt_mul_right ?_ hpos.le <;> linarith

variable {r} {x y : ℚ}

/-- Whether no number of some more places than are asked for is nearer to `x` than `y` is. -/
def NearestBeyond (r : Rounding) (x y : ℚ) : Prop := ∃ s > r.places, Decimal.NearestAt s x y

/-- A number that is not on a boundary and the one it is nearest to lie between the same two. From
one boundary to the next there is an even number of steps of more places. -/
theorem exists_between_of_nearestBeyond (h : r.NearestBeyond x y) (hy : ¬ r.OnBoundary y) : ∃ k : ℤ,
    (k < y * (10 ^ r.places : ℕ) - r.strategy.boundary ∧
      y * (10 ^ r.places : ℕ) - r.strategy.boundary < k + 1) ∧
    k < x * (10 ^ r.places : ℕ) - r.strategy.boundary ∧
      x * (10 ^ r.places : ℕ) - r.strategy.boundary < k + 1 := by
  obtain ⟨s, hs, ⟨n, hn⟩, hnear⟩ := h
  obtain ⟨h, hh, hpow⟩ : ∃ h, 0 < h ∧ 10 ^ s = 10 ^ r.places * (2 * h) := by
    refine ⟨5 * 10 ^ (s - r.places - 1), Nat.mul_pos (by decide) (Nat.pow_pos (by decide)), ?_⟩
    rw [show s = r.places + (1 + (s - r.places - 1)) by omega, Nat.pow_add, Nat.pow_add,
      show r.places + (1 + (s - r.places - 1)) - r.places - 1 = s - r.places - 1 by omega]
    ring
  obtain ⟨e, he⟩ : ∃ e : ℤ, r.strategy.boundary * (2 * h : ℕ) = e := by
    rcases r.strategy.boundary_eq with hb | hb
    · refine ⟨h, ?_⟩
      rw [hb]
      push_cast
      ring
    · exact ⟨0, by rw [hb, zero_mul, Int.cast_zero]⟩
  rw [hpow, Nat.cast_mul] at hn hnear
  refine exists_between_of_near (n := n - e) (M := 2 * h) (by omega) ?_ ?_ fun k hk => hy ⟨k, hk⟩
  · rw [sub_mul, he, mul_assoc, hn, Int.cast_sub]
  · rw [sub_sub_sub_cancel_right, ← sub_mul, abs_mul, abs_of_pos (Decimal.pow_ten_pos _)]
    linarith

/-- A number that is not on a boundary is rounded like the one it is nearest to. -/
theorem round_eq_of_nearestBeyond (h : r.NearestBeyond x y) (hy : ¬ r.OnBoundary y) :
    r.round y = r.round x ∧ ¬ r.OnBoundary x := by
  obtain ⟨k, hky, hkx⟩ := exists_between_of_nearestBeyond h hy
  refine ⟨?_, ?_⟩
  · rw [round, round, r.strategy.round_eq_of_between hky hkx]
  · rintro ⟨j, hj⟩
    rw [hj] at hkx
    have h₁ : k < j := by exact_mod_cast hkx.1
    have h₂ : j < k + 1 := by exact_mod_cast hkx.2
    omega

end Rounding

namespace Decimal

variable {a b c m q value percent : Decimal} {r : Rounding}

theorem divide_eq_some_iff : a.divide b r = some q ↔ ∃ c, a.div? b = some c ∧ r.apply c = q := by
  rw [divide, Option.map_eq_some_iff]

theorem percentOf_eq_some_iff : value.percentOf percent r = some q ↔
    ∃ m c, value.mul? percent = some m ∧ m.div? hundred = some c ∧ r.apply c = q := by
  rw [percentOf, Option.bind_eq_some_iff]
  simp only [Option.map_eq_some_iff, exists_and_left]

theorem toRat_hundred : hundred.toRat = 100 := toRat_ofNat 100 _

/-- Quotients and percentages are rounded for good to what their exact values would be rounded to if
these are decimals, and otherwise as long as what they were rounded to at first has more places than
are asked for and is not on a boundary of the strategy. -/
theorem divide_percentOf_rounded (a b : Decimal) (r : Rounding) :
    (∀ q, a.divide b r = some q → ∃ c, a.div? b = some c ∧
      (∃ s, NearestAt s (a.toRat / b.toRat) c.toRat) ∧ q.toRat = r.round c.toRat ∧
      (IsDecimal (a.toRat / b.toRat) ∨
        r.NearestBeyond (a.toRat / b.toRat) c.toRat ∧ ¬ r.OnBoundary c.toRat →
          q.toRat = r.round (a.toRat / b.toRat))) ∧
    ∀ q, a.percentOf b r = some q → ∃ m c, a.mul? b = some m ∧ m.div? hundred = some c ∧
      (∃ s, NearestAt s (a.toRat * b.toRat) m.toRat) ∧ (∃ s, NearestAt s (m.toRat / 100) c.toRat) ∧
      q.toRat = r.round c.toRat ∧
      (IsDecimal (a.toRat * b.toRat) ∧ IsDecimal (a.toRat * b.toRat / 100) ∨
        r.NearestBeyond (a.toRat * b.toRat / 100) (m.toRat / 100) ∧
          r.NearestBeyond (m.toRat / 100) c.toRat ∧ ¬ r.OnBoundary c.toRat →
            q.toRat = r.round (a.toRat * b.toRat / 100)) := by
  constructor
  · intro q hq
    obtain ⟨c, hc, rfl⟩ := divide_eq_some_iff.1 hq
    refine ⟨c, hc, exists_nearestAt_of_div? hc, r.toRat_apply c, ?_⟩
    rw [r.toRat_apply]
    rintro (hx | ⟨hnear, hbound⟩)
    · rw [toRat_div?_of_isDecimal hc hx]
    · exact (Rounding.round_eq_of_nearestBeyond hnear hbound).1
  · intro q hq
    obtain ⟨m, c, hm, hc, rfl⟩ := percentOf_eq_some_iff.1 hq
    have hquotient := exists_nearestAt_of_div? hc
    rw [toRat_hundred] at hquotient
    refine ⟨m, c, hm, hc, exists_nearestAt_of_mul? hm, hquotient, r.toRat_apply c, ?_⟩
    rw [r.toRat_apply]
    rintro (⟨hx, hx'⟩ | ⟨hproduct, hnear, hbound⟩)
    · have hexact : m.toRat = a.toRat * b.toRat := by
        obtain ⟨m', hm', hval⟩ := mul?_exact_iff.2 hx
        rw [hm, Option.some.injEq] at hm'
        rw [hm', hval]
      rw [← hexact, ← toRat_hundred] at hx' ⊢
      rw [toRat_div?_of_isDecimal hc hx']
    · obtain ⟨heq, hbound'⟩ := Rounding.round_eq_of_nearestBeyond hnear hbound
      rw [heq, (Rounding.round_eq_of_nearestBeyond hproduct hbound').1]

/-- What ten thirds are rounded to at first. -/
def tenThirds : Decimal := ⟨false, 33333333333333333333333333333, 28, by decide, by decide⟩

theorem toRat_tenThirds :
    tenThirds.toRat = 33333333333333333333333333333 / 10000000000000000000000000000 := by
  norm_num [tenThirds, toRat, signed]

theorem nearestBeyond_tenThirds :
    Rounding.NearestBeyond ⟨2, .awayFromZero⟩ ((10 : ℕ) / (3 : ℕ)) tenThirds.toRat := by
  refine ⟨28, by decide, ⟨33333333333333333333333333333, ?_⟩, ?_⟩
  · norm_num [toRat_tenThirds]
  · norm_num [toRat_tenThirds, abs_of_neg]

theorem not_onBoundary_tenThirds : ¬ Rounding.OnBoundary ⟨2, .awayFromZero⟩ tenThirds.toRat := by
  rintro ⟨k, hk⟩
  have hwhole : (33333333333333333333333333333 : ℤ) = k * 100000000000000000000000000 := by
    rw [toRat_tenThirds, Strategy.boundary] at hk
    norm_num [div_eq_iff] at hk
    exact_mod_cast hk
  omega

/-- Ten thirds have no last place, a quarter of 1277 has two. -/
theorem divide_percentOf_rounded_tenThirds : ∃ q p,
    (ofNat 10).divide (ofNat 3) ⟨2, .awayFromZero⟩ = some q ∧
      q.toRat = Rounding.round ⟨2, .awayFromZero⟩ ((10 : ℕ) / (3 : ℕ)) ∧
    (ofNat 1277).percentOf (ofNat 25) ⟨1, .midpointNearestEven⟩ = some p ∧
      p.toRat = Rounding.round ⟨1, .midpointNearestEven⟩ ((1277 : ℕ) * (25 : ℕ) / 100) := by
  have hq : (ofNat 10).divide (ofNat 3) ⟨2, .awayFromZero⟩ =
      some ⟨false, 334, 2, by decide, by decide⟩ := by decide +kernel
  have hp : (ofNat 1277).percentOf (ofNat 25) ⟨1, .midpointNearestEven⟩ =
      some ⟨false, 3192, 1, by decide, by decide⟩ := by decide +kernel
  have hthirds : (ofNat 10).div? (ofNat 3) = some tenThirds := by decide +kernel
  obtain ⟨c, hc, -, -, hround⟩ := (divide_percentOf_rounded _ _ _).1 _ hq
  obtain ⟨_, _, -, -, -, -, -, hround'⟩ := (divide_percentOf_rounded _ _ _).2 _ hp
  rw [hthirds, Option.some.injEq] at hc
  subst hc
  simp only [toRat_ofNat] at hround hround'
  refine ⟨_, _, hq, hround (.inr ⟨nearestBeyond_tenThirds, not_onBoundary_tenThirds⟩), hp,
    hround' (.inl ⟨?_, ?_⟩)⟩
  · exact ⟨ofNat 31925, by norm_num [toRat_ofNat]⟩
  · exact ⟨⟨false, 31925, 2, by decide, by decide⟩, by norm_num [toRat, signed]⟩

/-- A half less than half of the largest decimal. -/
def belowHalf : Decimal := ofNat 39614081257132168796771975167

/-- A quotient just below a half is taken for one, and rounded away from zero. -/
theorem divide_belowHalf_ne : ∃ q,
    belowHalf.divide largest ⟨0, .midpointAwayFromZero⟩ = some q ∧
    IsDecimal (Rounding.round ⟨0, .midpointAwayFromZero⟩ (belowHalf.toRat / largest.toRat)) ∧
    q.toRat ≠ Rounding.round ⟨0, .midpointAwayFromZero⟩ (belowHalf.toRat / largest.toRat) := by
  have hround : Rounding.round ⟨0, .midpointAwayFromZero⟩ (belowHalf.toRat / largest.toRat) =
      zero.toRat := by decide +kernel
  rw [hround]
  exact ⟨one, by decide +kernel, ⟨zero, rfl⟩, by decide +kernel⟩

end Decimal
end DatedRules
