import DatedRules.Decimal.Arithmetic
import Mathlib.Algebra.Order.Field.Basic
import Mathlib.Data.Rat.Floor
import Mathlib.Tactic.Linarith
import Mathlib.Tactic.Positivity
import Mathlib.Tactic.Ring

/-!
# Decimals as numbers

`Decimal.toRat` is the number that a decimal stands for, that of its sign times its magnitude
(`toRat_eq_signOf_mul`). The order of decimals is that of these numbers (`less_iff`). Sums and
differences are exact as long as their mantissa is in range at the larger of the two scales
(`exists_add?_eq`, `exists_sub_eq`), and so are products at the sum of the scales
(`exists_mul?_eq`). Rounding to whole units, half-way cases away from zero, does to the number what
`roundHalfAway` does (`toRat_apply_whole`).
-/

namespace DatedRules

namespace Decimal

/-- The number that a decimal stands for. -/
def toRat (a : Decimal) : ℚ := a.signed / (10 ^ a.scale : ℕ)

theorem pow_ten_pos (k : ℕ) : (0 : ℚ) < (10 ^ k : ℕ) := by
  exact_mod_cast Nat.pow_pos (n := k) (show 0 < 10 by decide)

variable {a b : Decimal}

theorem less_iff : a.less b = true ↔ a.toRat < b.toRat := by
  unfold less toRat
  rw [decide_eq_true_iff, div_lt_div_iff₀ (pow_ten_pos _) (pow_ten_pos _)]
  exact_mod_cast Iff.rfl

theorem toRat_neg (a : Decimal) : a.neg.toRat = -a.toRat := by
  unfold toRat
  rw [signed_neg, Int.cast_neg, neg_div]
  rfl

theorem toRat_max (a b : Decimal) : (a.max b).toRat = Max.max a.toRat b.toRat := by
  unfold max
  split
  · rename_i h
    exact (max_eq_right (less_iff.1 h).le).symm
  · rename_i h
    exact (max_eq_left (not_lt.1 fun hlt => h (less_iff.2 hlt))).symm

theorem toRat_ofNat (n : ℕ) (h : n < 2 ^ 96) : (ofNat n h).toRat = n := by
  simp [toRat, ofNat, signed]

/-- The largest decimal. -/
def largest : Decimal := ofNat 79228162514264337593543950335

theorem signed_of_isZero (h : a.isZero = true) : a.signed = 0 := by
  have hm : a.mantissa = 0 := by simpa [isZero] using h
  simp [signed, hm]

theorem toRat_of_isZero (h : a.isZero = true) : a.toRat = 0 := by
  simp [toRat, signed_of_isZero h]

theorem toRat_mul_of_isZero (h : (a.isZero || b.isZero) = true) : a.toRat * b.toRat = 0 := by
  rw [Bool.or_eq_true] at h
  rcases h with h | h
  · rw [toRat_of_isZero h, zero_mul]
  · rw [toRat_of_isZero h, mul_zero]

/-- A decimal's number with the mantissa at a larger scale. -/
theorem toRat_eq_at {s : ℕ} (h : a.scale ≤ s) :
    a.toRat = (a.signed * 10 ^ (s - a.scale) : ℤ) / (10 ^ s : ℕ) := by
  have hs : (10 ^ s : ℕ) = 10 ^ (s - a.scale) * 10 ^ a.scale := by
    rw [← Nat.pow_add, Nat.sub_add_cancel h]
  have h₁ := (pow_ten_pos a.scale).ne'
  have h₂ := (pow_ten_pos (s - a.scale)).ne'
  unfold toRat
  rw [hs, div_eq_div_iff h₁ (by push_cast at *; positivity)]
  push_cast
  ring

theorem fit_of_lt {m s : ℕ} (hm : m < 2 ^ 96) (hs : s ≤ 28) : fit m s = some (m, s) := by
  have hk : surplus? m s = some 0 := by
    unfold surplus?
    rw [List.range_succ_eq_map, List.find?_cons_of_pos]
    simpa using ⟨hs, hm⟩
  have hround : roundHalfEven m 1 = m := by
    simp [roundHalfEven, Nat.mod_one]
  rw [fit, hk]
  simp only [Nat.pow_zero, hround, hm, if_true, Nat.sub_zero]

/-- Whether a number is a mantissa in range at a scale. -/
def Representable (x : ℚ) (s : ℕ) : Prop :=
  ∃ m : ℤ, m.natAbs < 2 ^ 96 ∧ x = m / (10 ^ s : ℕ)

theorem exists_ofParts?_eq {n : ℤ} {s : ℕ} (hn : n.natAbs < 2 ^ 96) (hs : s ≤ 28) :
    ∃ c, ofParts? (n < 0) n.natAbs s = some c ∧ c.toRat = n / (10 ^ s : ℕ) := by
  refine ⟨⟨n < 0, n.natAbs, s, hn, hs⟩, dif_pos ⟨hn, hs⟩, ?_⟩
  have hsigned : (⟨n < 0, n.natAbs, s, hn, hs⟩ : Decimal).signed = n := by
    unfold signed
    simp only [decide_eq_true_eq]
    split <;> omega
  rw [toRat, hsigned]

theorem exists_add?_eq (h : Representable (a.toRat + b.toRat) (Nat.max a.scale b.scale)) :
    ∃ c, a.add? b = some c ∧ c.toRat = a.toRat + b.toRat := by
  unfold add?
  by_cases ha : a.isZero = true
  · exact ⟨b, if_pos ha, by rw [toRat_of_isZero ha, zero_add]⟩
  by_cases hb : b.isZero = true
  · exact ⟨a, by rw [if_neg ha, if_pos hb], by rw [toRat_of_isZero hb, add_zero]⟩
  rw [if_neg ha, if_neg hb]
  obtain ⟨m, hm, hsum⟩ := h
  set s := Nat.max a.scale b.scale
  have hs : s ≤ 28 := Nat.max_le.2 ⟨a.scale_le, b.scale_le⟩
  have hexact : a.signed * 10 ^ (s - a.scale) + b.signed * 10 ^ (s - b.scale) = m := by
    rw [toRat_eq_at (Nat.le_max_left a.scale b.scale),
      toRat_eq_at (Nat.le_max_right a.scale b.scale), ← add_div,
      div_left_inj' (pow_ten_pos s).ne'] at hsum
    exact_mod_cast hsum
  obtain ⟨c, hc, hval⟩ := exists_ofParts?_eq hm hs
  refine ⟨c, ?_, hval.trans hsum.symm⟩
  simp only [hexact, fit_of_lt hm hs]
  exact hc

/-- What a subtraction adds. -/
theorem toRat_negated (b : Decimal) : (if b.isZero then b else b.neg).toRat = -b.toRat := by
  split
  · rename_i hb
    rw [toRat_of_isZero hb, neg_zero]
  · exact toRat_neg b

theorem exists_sub_eq (h : Representable (a.toRat - b.toRat) (Nat.max a.scale b.scale)) :
    ∃ c, a.sub b = .ok c ∧ c.toRat = a.toRat - b.toRat := by
  have hneg := toRat_negated b
  have hscale : (if b.isZero then b else b.neg).scale = b.scale := by
    split <;> rfl
  obtain ⟨c, hc, hval⟩ := exists_add?_eq (a := a) (b := if b.isZero then b else b.neg)
    (by rwa [hneg, hscale, ← sub_eq_add_neg])
  refine ⟨c, ?_, by rw [hval, hneg, sub_eq_add_neg]⟩
  rw [sub, sub?, hc]

theorem exists_mul?_eq (hm : a.mantissa * b.mantissa < 2 ^ 96) (hs : a.scale + b.scale ≤ 28) :
    ∃ c, a.mul? b = some c ∧ c.toRat = a.toRat * b.toRat ∧
      c.mantissa = a.mantissa * b.mantissa ∧ c.scale ≤ a.scale + b.scale := by
  unfold mul?
  by_cases hz : (a.isZero || b.isZero) = true
  · have hor : a.isZero = true ∨ b.isZero = true := by simpa using hz
    have hzero : zero.toRat = 0 := toRat_of_isZero rfl
    refine ⟨zero, if_pos hz, ?_, ?_, Nat.zero_le _⟩
    · rcases hor with h | h <;> simp [hzero, toRat_of_isZero h]
    · rcases hor with h | h <;> simp_all [isZero, zero, ofNat]
  · have hne : a.mantissa * b.mantissa ≠ 0 := by
      simpa [isZero] using hz
    have hfew : ¬ 47 < a.scale + b.scale := by omega
    rw [if_neg hz]
    simp only [hfew, decide_false, Bool.and_false, fit_of_lt hm hs, beq_false_of_ne hne]
    refine ⟨_, dif_pos ⟨hm, hs⟩, ?_, rfl, Nat.le_refl _⟩
    unfold toRat signed
    rw [div_mul_div_comm, ← Nat.cast_mul, ← Nat.pow_add]
    congr 1
    rcases ha : a.negative with _ | _ <;> rcases hb : b.negative with _ | _ <;> simp

theorem exists_product_pair_eq (hm : a.mantissa * b.mantissa < 2 ^ 96)
    (hs : a.scale + b.scale ≤ 28) :
    ∃ c, product [a, b] = some c ∧ c.toRat = a.toRat * b.toRat := by
  have hone : one.mantissa * a.mantissa = a.mantissa := Nat.one_mul _
  obtain ⟨a', ha', hval, hm', hs'⟩ := exists_mul?_eq (a := one) (b := a)
    (hone.trans_lt a.mantissa_lt) ((Nat.zero_add _).trans_le a.scale_le)
  rw [hone] at hm'
  rw [show one.scale + a.scale = a.scale from Nat.zero_add _] at hs'
  obtain ⟨c, hc, hval', -⟩ := exists_mul?_eq (a := a') (b := b) (hm' ▸ hm) (by omega)
  refine ⟨c, ?_, ?_⟩
  · simp [product, ha', hc]
  · rw [hval', hval, show one.toRat = 1 by simp [one, toRat_ofNat], one_mul]

end Decimal

/-- The nearest whole number, and of two equally near ones the one further from zero. -/
def roundHalfAway (x : ℚ) : ℤ := if x < 0 then -⌊-x + 1 / 2⌋ else ⌊x + 1 / 2⌋

theorem roundHalfAway_neg (x : ℚ) : roundHalfAway (-x) = -roundHalfAway x := by
  unfold roundHalfAway
  rcases lt_trichotomy x 0 with h | rfl | h
  · rw [if_neg (by linarith), if_pos h, neg_neg]
  · norm_num
  · rw [if_pos (by linarith), if_neg (by linarith), neg_neg]

/-- The nearest whole number to a magnitude with whole part `q` and a remainder. -/
theorem roundHalfAway_of_rest (q : ℕ) {r d : ℕ} (hr : r < d) :
    roundHalfAway ((q * d + r : ℕ) / d) = (if d ≤ 2 * r then q + 1 else q : ℕ) := by
  have hd : (0 : ℚ) < d := by exact_mod_cast Nat.zero_lt_of_lt hr
  have hsplit : ((q * d + r : ℕ) : ℚ) / d = q + r / d := by
    push_cast
    rw [add_div, mul_div_cancel_right₀ _ hd.ne']
  have hrest : (r : ℚ) / d < 1 := by
    rw [div_lt_one hd]
    exact_mod_cast hr
  have hrest' : (0 : ℚ) ≤ r / d := by positivity
  have hhalf : d ≤ 2 * r ↔ (1 / 2 : ℚ) ≤ r / d := by
    rw [div_le_div_iff₀ two_pos hd, one_mul, mul_comm]
    exact_mod_cast Iff.rfl
  have hpos : ¬ ((q : ℚ) + r / d < 0) := not_lt.2 (by positivity)
  rw [hsplit, roundHalfAway, if_neg hpos, Int.floor_eq_iff]
  split
  · rename_i h
    have hup := hhalf.1 h
    push_cast
    constructor <;> linarith
  · rename_i h
    have hdown := not_le.1 (mt hhalf.2 h)
    push_cast
    constructor <;> linarith

namespace Decimal

theorem toRat_of_negative {a : Decimal} (h : a.negative = true) :
    a.toRat = -((a.mantissa : ℚ) / (10 ^ a.scale : ℕ)) := by
  simp [toRat, signed, h, neg_div]

theorem toRat_of_not_negative {a : Decimal} (h : a.negative = false) :
    a.toRat = (a.mantissa : ℚ) / (10 ^ a.scale : ℕ) := by
  simp [toRat, signed, h]

/-- The number of a sign. -/
def signOf (negative : Bool) : ℚ := if negative then -1 else 1

theorem signOf_bne (p q : Bool) : signOf (p != q) = signOf p * signOf q := by
  cases p <;> cases q <;> norm_num [signOf]

theorem abs_signOf (negative : Bool) : |signOf negative| = 1 := by
  cases negative <;> norm_num [signOf]

theorem toRat_eq_signOf_mul (a : Decimal) :
    a.toRat = signOf a.negative * (a.mantissa / (10 ^ a.scale : ℕ)) := by
  rcases h : a.negative with _ | _
  · rw [toRat_of_not_negative h, signOf, if_neg (by decide), one_mul]
  · rw [toRat_of_negative h, signOf, if_pos rfl, neg_one_mul]

theorem abs_toRat (a : Decimal) : |a.toRat| = a.mantissa / (10 ^ a.scale : ℕ) := by
  rw [toRat_eq_signOf_mul, abs_mul, abs_signOf, one_mul, abs_of_nonneg (by positivity)]

/-- The magnitude of a decimal in whole units, half-way cases up. -/
def wholeUnits (a : Decimal) : ℕ :=
  if 10 ^ a.scale ≤ 2 * (a.mantissa % 10 ^ a.scale) then a.mantissa / 10 ^ a.scale + 1
  else a.mantissa / 10 ^ a.scale

theorem roundHalfAway_magnitude (a : Decimal) :
    roundHalfAway ((a.mantissa : ℚ) / (10 ^ a.scale : ℕ)) = a.wholeUnits := by
  have hr := Nat.mod_lt a.mantissa (Nat.pow_pos (n := a.scale) (show 0 < 10 by decide))
  have h := roundHalfAway_of_rest (a.mantissa / 10 ^ a.scale) hr
  rwa [Nat.div_add_mod'] at h

theorem scale_apply_whole (strategy : Strategy) (a : Decimal) :
    ((Rounding.whole strategy).apply a).scale = 0 :=
  Nat.le_zero.1 (Rounding.scale_apply (Rounding.whole strategy) a)

theorem signed_apply_whole (a : Decimal) :
    ((Rounding.whole .midpointAwayFromZero).apply a).signed =
      if a.negative then -(a.wholeUnits : ℤ) else a.wholeUnits := by
  unfold Rounding.apply
  split
  · rename_i h
    have hscale : a.scale = 0 := Nat.le_zero.1 h
    simp [signed, wholeUnits, hscale, Nat.mod_one]
  · have hunits : (if (Rounding.whole .midpointAwayFromZero).strategy.up a.negative
        (a.mantissa / 10 ^ a.scale) (a.mantissa % 10 ^ a.scale) (10 ^ a.scale)
        then a.mantissa / 10 ^ a.scale + 1 else a.mantissa / 10 ^ a.scale) = a.wholeUnits := by
      simp only [Rounding.whole, Strategy.up, decide_eq_true_eq, wholeUnits]
    have hplaces : a.scale - (Rounding.whole .midpointAwayFromZero).places = a.scale := rfl
    unfold signed
    simp only [hplaces, hunits]
    cases a.negative
    · rfl
    · by_cases hm : a.wholeUnits = 0 <;> simp [hm]

theorem toRat_apply_whole (a : Decimal) :
    ((Rounding.whole .midpointAwayFromZero).apply a).toRat = roundHalfAway a.toRat := by
  have hmag := a.roundHalfAway_magnitude
  rw [toRat, scale_apply_whole, signed_apply_whole]
  rcases h : a.negative with _ | _
  · rw [toRat_of_not_negative h, hmag]
    simp
  · rw [toRat_of_negative h, roundHalfAway_neg, hmag]
    simp

end Decimal

end DatedRules
