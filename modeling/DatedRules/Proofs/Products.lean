import DatedRules.Proofs.Definition
import DatedRules.Proofs.Fitting
import DatedRules.Proofs.Formula
import Mathlib.Data.List.Infix

/-!
# Exact products

A product of two decimals is exact if and only if it is a decimal at all (`mul?_exact_iff`): where
it has more than 28 places or more digits than fit, places that are not zeros are dropped without a
word. The product of a list is taken from the left, and so it is exact, and every rule that
multiplies such values has it as its value, as long as the factors up to each one have a decimal as
their product (`product_exact`). That the whole product has few enough digits does not help a list
whose first factors have too many.
-/

namespace DatedRules

open Reconciliation (Basis about newYear unevenBasis)

namespace Decimal

/-- Whether a decimal stands for the number. -/
def IsDecimal (x : ℚ) : Prop := ∃ c : Decimal, c.toRat = x

variable {a b : Decimal}

theorem toRat_mul_eq (a b : Decimal) : a.toRat * b.toRat =
    signOf (a.negative != b.negative) *
      ((a.mantissa * b.mantissa : ℕ) / (10 ^ (a.scale + b.scale) : ℕ)) := by
  rw [toRat_eq_signOf_mul a, toRat_eq_signOf_mul b, signOf_bne, Nat.pow_add]
  push_cast
  ring

/-- The digits of a product that is a decimal, brought to a common scale with those of that one. -/
theorem digits_of_toRat_eq_mul {c : Decimal} (h : c.toRat = a.toRat * b.toRat) :
    a.mantissa * b.mantissa * 10 ^ c.scale = c.mantissa * 10 ^ (a.scale + b.scale) := by
  have habs : |c.toRat| = |a.toRat| * |b.toRat| := by rw [h, abs_mul]
  rw [abs_toRat, abs_toRat, abs_toRat, div_mul_div_comm, ← Nat.cast_mul, ← Nat.cast_mul,
    ← Nat.pow_add, div_eq_div_iff (pow_ten_pos _).ne' (pow_ten_pos _).ne'] at habs
  exact_mod_cast habs.symm

/-- Factors of at most 32 bits with more than 47 places between them have no decimal as product. -/
theorem scale_le_of_small {c : Decimal} (h : c.toRat = a.toRat * b.toRat)
    (hne : a.mantissa * b.mantissa ≠ 0) (ha : a.mantissa < 2 ^ 32) (hb : b.mantissa < 2 ^ 32) :
    a.scale + b.scale ≤ 47 := by
  have hdigits := digits_of_toRat_eq_mul h
  have hc : c.mantissa ≠ 0 := by
    rintro hc
    rw [hc, Nat.zero_mul, Nat.mul_eq_zero] at hdigits
    exact hdigits.elim hne (Nat.pow_pos (by decide)).ne'
  by_contra hlarge
  have hlt : a.mantissa * b.mantissa * 10 ^ c.scale < 2 ^ 64 * 10 ^ 28 :=
    calc a.mantissa * b.mantissa * 10 ^ c.scale
      _ ≤ a.mantissa * b.mantissa * 10 ^ 28 :=
        Nat.mul_le_mul_left _ (Nat.pow_le_pow_right (by decide) c.scale_le)
      _ < 2 ^ 64 * 10 ^ 28 :=
        Nat.mul_lt_mul_of_pos_right (Nat.mul_lt_mul'' ha hb) (Nat.pow_pos (by decide))
  have hge : 10 ^ 48 ≤ c.mantissa * 10 ^ (a.scale + b.scale) :=
    calc 10 ^ 48 ≤ 10 ^ (a.scale + b.scale) := Nat.pow_le_pow_right (by decide) (by omega)
      _ ≤ c.mantissa * 10 ^ (a.scale + b.scale) :=
        Nat.le_mul_of_pos_left _ (Nat.pos_of_ne_zero hc)
  rw [hdigits] at hlt
  exact absurd (hge.trans_lt hlt) (by decide)

theorem exists_mul?_eq_of_isDecimal (h : IsDecimal (a.toRat * b.toRat)) :
    ∃ c, a.mul? b = some c ∧ c.toRat = a.toRat * b.toRat := by
  obtain ⟨d, hd⟩ := h
  by_cases hz : (a.isZero || b.isZero) = true
  · refine ⟨zero, by rw [mul?, if_pos hz], ?_⟩
    rw [toRat_mul_of_isZero hz, toRat_of_isZero rfl]
  · have hne : a.mantissa * b.mantissa ≠ 0 := by simpa [isZero] using hz
    have hfew : ¬ ((a.mantissa < 2 ^ 32 && b.mantissa < 2 ^ 32) && 47 < a.scale + b.scale) := by
      simp only [Bool.and_eq_true, decide_eq_true_eq]
      rintro ⟨⟨ha, hb⟩, hlt⟩
      exact absurd (scale_le_of_small hd hne ha hb) (by omega)
    obtain ⟨q, t, hfit, hq⟩ :=
      exists_fit_eq d.mantissa_lt d.scale_le (digits_of_toRat_eq_mul hd)
    have hrange := fit_lt hfit
    have hq₀ : q ≠ 0 := by
      rintro rfl
      rw [Nat.zero_mul, eq_comm, Nat.mul_eq_zero] at hq
      exact hq.elim hne (Nat.pow_pos (by decide)).ne'
    refine ⟨⟨a.negative != b.negative, q, t, hrange.1, hrange.2⟩, ?_, ?_⟩
    · rw [mul?, if_neg hz]
      simp only [if_neg hfew, hfit, beq_false_of_ne hq₀, Bool.and_false, Bool.not_false,
        Bool.and_true]
      exact dif_pos hrange
    · rw [toRat_mul_eq, toRat_eq_signOf_mul]
      congr 1
      rw [div_eq_div_iff (pow_ten_pos _).ne' (pow_ten_pos _).ne', ← Nat.cast_mul, ← Nat.cast_mul]
      exact_mod_cast hq

theorem mul?_exact_iff : (∃ c, a.mul? b = some c ∧ c.toRat = a.toRat * b.toRat) ↔
    IsDecimal (a.toRat * b.toRat) :=
  ⟨fun ⟨c, _, hc⟩ => ⟨c, hc⟩, exists_mul?_eq_of_isDecimal⟩

/-- The prefix of the first factor makes the first step exact, and those that go on from it the
others. -/
theorem exists_foldlM_mul?_eq : ∀ {values : List Decimal} {acc : Decimal},
    (∀ xs, xs <+: values → IsDecimal (acc.toRat * (xs.map toRat).prod)) →
      ∃ p, values.foldlM mul? acc = some p ∧ p.toRat = acc.toRat * (values.map toRat).prod
  | [], acc, _ => ⟨acc, rfl, by simp⟩
  | v :: values, acc, h => by
    obtain ⟨c, hc, hval⟩ : ∃ c, acc.mul? v = some c ∧ c.toRat = acc.toRat * v.toRat :=
      mul?_exact_iff.2 (by simpa using h [v] ⟨values, rfl⟩)
    have hrest : ∀ xs, xs <+: values → IsDecimal (c.toRat * (xs.map toRat).prod) := fun xs hxs => by
      simpa [hval, mul_assoc] using h (v :: xs) ((List.prefix_cons_inj v).2 hxs)
    obtain ⟨p, hp, hprod⟩ := exists_foldlM_mul?_eq hrest
    refine ⟨p, by rw [List.foldlM_cons, hc]; exact hp, ?_⟩
    rw [hprod, hval, List.map_cons, List.prod_cons, mul_assoc]

/-- A product is exact, and the value of every rule that multiplies the values, if the product of
the factors up to each one is a decimal. -/
theorem product_exact {values : List Decimal}
    (h : ∀ xs, xs <+: values → IsDecimal (xs.map toRat).prod) :
    ∃ p, product values = some p ∧ p.toRat = (values.map toRat).prod ∧
      ∀ {G : Type} {info : RuleInfo} {factors : List (Rule G .decimal)} {r : Rule G .decimal}
        {g : G} {d : Date}, Rule.multiply info factors = .ok r →
          List.Forall₂ (fun a x => a.valueOn g d = .ok x) factors values →
            r.valueOn g d = .ok p := by
  have hone : one.toRat = 1 := by norm_num [one, toRat_ofNat]
  obtain ⟨p, hp, hval⟩ : ∃ p, values.foldlM mul? one = some p ∧
      p.toRat = one.toRat * (values.map toRat).prod :=
    exists_foldlM_mul?_eq fun xs hxs => by simpa [hone] using h xs hxs
  refine ⟨p, hp, by rw [hval, hone, one_mul], fun hr hvalues => ?_⟩
  obtain ⟨-, rfl⟩ := Rule.multiply_eq_ok_iff.1 hr
  exact Rule.valueOn_product (by rwa [List.ofFn_get]) hp

/-- Values of four, five and six decimal places. -/
def fewPlaces : List Decimal :=
  [⟨false, 15, 4, by decide, by decide⟩, ⟨true, 35, 5, by decide, by decide⟩,
    ⟨false, 45, 6, by decide, by decide⟩]

theorem isDecimal_of_prefix_fewPlaces :
    ∀ xs, xs <+: fewPlaces → IsDecimal (xs.map toRat).prod := by
  intro xs hxs
  rw [← List.mem_inits] at hxs
  simp only [fewPlaces, List.inits, List.map_cons, List.map_nil, List.mem_cons,
    List.not_mem_nil, or_false] at hxs
  rcases hxs with rfl | rfl | rfl | rfl
  · exact ⟨one, by norm_num [one, toRat_ofNat]⟩
  · exact ⟨⟨false, 15, 4, by decide, by decide⟩, by norm_num⟩
  · exact ⟨⟨true, 525, 9, by decide, by decide⟩, by norm_num [toRat, signed]⟩
  · exact ⟨⟨true, 23625, 15, by decide, by decide⟩, by norm_num [toRat, signed]⟩

def constants (values : List Decimal) : List (Rule Basis .decimal) :=
  values.map (.constant (about "FAKTOR" "Faktor"))

theorem valueOn_constants {g : Basis} {d : Date} : ∀ values : List Decimal,
    List.Forall₂ (fun a x => a.valueOn g d = .ok x) (constants values) values
  | [] => .nil
  | _ :: values => .cons rfl (valueOn_constants values)

theorem product_exact_fewPlaces : (∀ xs, xs <+: fewPlaces → IsDecimal (xs.map toRat).prod) ∧
    ∃ p r, product fewPlaces = some p ∧ p.toRat = -23625 / 1000000000000000 ∧
      Rule.multiply (about "PRODUKT" "Produkt") (constants fewPlaces) = .ok r ∧
      r.valueOn unevenBasis (newYear 2024) = .ok p := by
  refine ⟨isDecimal_of_prefix_fewPlaces, ?_⟩
  obtain ⟨p, hp, hval, hrule⟩ := product_exact isDecimal_of_prefix_fewPlaces
  refine ⟨p, _, hp, ?_, rfl, hrule rfl (valueOn_constants _)⟩
  rw [hval]
  norm_num [fewPlaces, toRat, signed]

/-- Factors that have fifteen decimal places each. -/
def manyPlaces : List Decimal :=
  [⟨false, 7, 15, by decide, by decide⟩, ⟨false, 7, 15, by decide, by decide⟩]

/-- A product with more places than a decimal has is rounded, here to zero. -/
theorem product_manyPlaces_ne : ∃ p r, product manyPlaces = some p ∧
    Rule.multiply (about "PRODUKT" "Produkt") (constants manyPlaces) = .ok r ∧
    r.valueOn unevenBasis (newYear 2024) = .ok p ∧
    p.toRat ≠ (manyPlaces.map toRat).prod := by
  refine ⟨⟨false, 0, 28, by decide, by decide⟩, _, rfl, rfl, rfl, ?_⟩
  norm_num [manyPlaces, toRat, signed]

end Decimal

end DatedRules
