import DatedRules.Proofs.Overflow
import DatedRules.Proofs.Products

/-!
# The order of factors

A product of two decimals has no result exactly from half a unit below `2 ^ 96` on
(`mul?_eq_none_iff`). A list is multiplied from the left, and so it has no product if and only if
one of its factors takes the product so far out of range (`foldlM_mul?_eq_none_iff`), be the factors
to come as small as they may. What the product of the whole list would be does not matter, and the
order of the factors does (`product_largestFirst_ne`).

As long as any of the factors by themselves have a decimal as their product, every order gives the
exact product (`product_any_order`), as the factors up to each one are some of them. That is so if
the digits of all of them together are few enough (`isDecimal_of_few`).
-/

namespace DatedRules

open Reconciliation (about newYear unevenBasis)

namespace Rule

variable {G : Type} {g : G} {d : Date} {info : RuleInfo}

theorem valueOn_product_eq {n : ℕ} {factors : Fin n → Rule G .decimal} {xs : List Decimal}
    (h : List.Forall₂ (fun a x => a.valueOn g d = .ok x) (List.ofFn factors) xs) :
    (product info n factors).valueOn g d =
      (Decimal.product xs).elim (.error (.failure ⟨.overflow, d, info⟩)) .ok := by
  rcases hp : Decimal.product xs with _ | p
  · obtain ⟨es, hes, rfl⟩ := exists_collect_eq h
    rw [List.map_ofFn] at hes
    have hstop :
        (product info n factors).evaluate g d = .error (.failure ⟨.overflow, d, info⟩) := by
      rw [evaluate]
      refine bind_eq_error_iff.2 (.inr ⟨es, hes, ?_⟩)
      rw [hp]
    rw [valueOn, hstop]
    rfl
  · exact valueOn_product h hp

end Rule

namespace Decimal

variable {a b : Decimal}

theorem mul?_eq_none_iff : a.mul? b = none ↔ overflowBound ≤ |a.toRat * b.toRat| := by
  have hpos : ¬ overflowBound ≤ 0 := by norm_num [overflowBound]
  unfold mul?
  split
  · rename_i hz
    rw [toRat_mul_of_isZero hz, abs_zero]
    exact iff_of_false (by simp) hpos
  · rw [toRat_mul_eq, abs_mul, abs_signOf, one_mul]
    dsimp only
    split
    · rename_i hfew
      simp only [Bool.and_eq_true, decide_eq_true_eq] at hfew
      have hm : a.mantissa * b.mantissa < 2 ^ 32 * 2 ^ 32 := Nat.mul_lt_mul'' hfew.1.1 hfew.1.2
      have hfit :
          ∃ q, fit ((a.mantissa * b.mantissa : ℕ) : ℤ).natAbs (a.scale + b.scale) = some q := by
        rw [← Option.isSome_iff_exists, ← Option.ne_none_iff_isSome, Ne, fit_eq_none_iff,
          Int.natAbs_natCast]
        have hone : 1 ≤ 10 ^ (a.scale + b.scale) := Nat.pow_pos (by decide)
        omega
      exact iff_of_false (by simp) (not_le.2 (exists_fit_iff.1 hfit))
    · rw [← Int.cast_natCast (a.mantissa * b.mantissa), ← not_lt, ← exists_fit_iff,
        Int.natAbs_natCast]
      rcases hfit : fit (a.mantissa * b.mantissa) (a.scale + b.scale) with _ | ⟨q, t⟩
      · simp
      · refine iff_of_false ?_ (by simp)
        simp only [ofParts?, dif_pos (fit_lt hfit), reduceCtorEq, not_false_eq_true]

theorem foldlM_mul?_eq_none_iff : ∀ {values : List Decimal} {acc : Decimal},
    values.foldlM mul? acc = none ↔ ∃ xs v c, xs ++ [v] <+: values ∧
      xs.foldlM mul? acc = some c ∧ overflowBound ≤ |c.toRat * v.toRat|
  | [], acc => by
    constructor
    · intro h
      cases h
    · rintro ⟨xs, v, -, hxs, -⟩
      simp at hxs
  | w :: values, acc => by
    rw [List.foldlM_cons]
    rcases hw : acc.mul? w with _ | c
    · exact ⟨fun _ => ⟨[], w, acc, ⟨values, rfl⟩, rfl, mul?_eq_none_iff.1 hw⟩, fun _ => rfl⟩
    · show values.foldlM mul? c = none ↔ _
      rw [foldlM_mul?_eq_none_iff]
      constructor
      · rintro ⟨xs, v, p, hxs, hp, hbig⟩
        refine ⟨w :: xs, v, p, (List.prefix_cons_inj w).2 hxs, ?_, hbig⟩
        rw [List.foldlM_cons, hw]
        exact hp
      · rintro ⟨xs, v, p, hxs, hp, hbig⟩
        cases xs with
        | nil =>
          obtain ⟨rfl, -⟩ := List.cons_prefix_cons.1 hxs
          cases hp
          rw [mul?_eq_none_iff.2 hbig] at hw
          cases hw
        | cons x xs =>
          obtain ⟨rfl, hxs⟩ := List.cons_prefix_cons.1 hxs
          rw [List.foldlM_cons, hw] at hp
          exact ⟨xs, v, p, by simpa using hxs, hp, hbig⟩

theorem prod_toRat_eq : ∀ xs : List Decimal, (xs.map toRat).prod =
    (xs.map signed).prod / (10 ^ (xs.map scale).sum : ℕ)
  | [] => by simp
  | x :: xs => by
    rw [List.map_cons, List.prod_cons, prod_toRat_eq xs, toRat, div_mul_div_comm, ← Int.cast_mul,
      ← Nat.cast_mul, ← Nat.pow_add]
    simp

theorem natAbs_prod_signed : ∀ xs : List Decimal,
    (xs.map signed).prod.natAbs = (xs.map mantissa).prod
  | [] => rfl
  | x :: xs => by
    have hx : x.signed.natAbs = x.mantissa := by
      unfold signed
      split <;> simp
    simp [Int.natAbs_mul, hx, natAbs_prod_signed xs]

/-- A factor of zero counts as one here: left out, it makes the product no smaller. -/
theorem prod_mantissa_le {xs values : List Decimal} (h : xs.Sublist values) :
    (xs.map mantissa).prod ≤ (values.map fun v => Nat.max 1 v.mantissa).prod ∧
      (xs.map scale).sum ≤ (values.map scale).sum := by
  induction h with
  | slnil => exact ⟨Nat.le_refl _, Nat.le_refl _⟩
  | cons v _ ih =>
    simp only [List.map_cons, List.prod_cons, List.sum_cons]
    exact ⟨ih.1.trans (Nat.le_mul_of_pos_left _ (Nat.le_max_left ..)),
      ih.2.trans (Nat.le_add_left _ _)⟩
  | cons_cons v _ ih =>
    simp only [List.map_cons, List.prod_cons, List.sum_cons]
    exact ⟨Nat.mul_le_mul (Nat.le_max_right ..) ih.1, Nat.add_le_add_left ih.2 _⟩

/-- Any of some factors by themselves have a decimal as their product if the digits of all of them
together are few enough. -/
theorem isDecimal_of_few {values : List Decimal}
    (hm : (values.map fun v => Nat.max 1 v.mantissa).prod < 2 ^ 96)
    (hs : (values.map scale).sum ≤ 28) {xs : List Decimal} (h : xs.Sublist values) :
    IsDecimal (xs.map toRat).prod := by
  obtain ⟨hm', hs'⟩ := prod_mantissa_le h
  obtain ⟨c, -, hc⟩ := exists_ofParts?_eq (n := (xs.map signed).prod)
    (by rw [natAbs_prod_signed]; exact hm'.trans_lt hm) (hs'.trans hs)
  exact ⟨c, hc.trans (prod_toRat_eq xs).symm⟩

/-- A list has no product, and a rule that multiplies its values reports an overflow, if and only if
one of the factors takes the product of those before it out of range. If any of the factors by
themselves have a decimal as their product, there is one in every order, and it is exact. -/
theorem product_any_order (values : List Decimal) :
    (product values = none ↔ ∃ xs v c, xs ++ [v] <+: values ∧ product xs = some c ∧
      overflowBound ≤ |c.toRat * v.toRat|) ∧
    (∀ {G : Type} {info : RuleInfo} {factors : List (Rule G .decimal)} {r : Rule G .decimal} {g : G}
      {d : Date}, Rule.multiply info factors = .ok r →
        List.Forall₂ (fun a x => a.valueOn g d = .ok x) factors values →
          r.valueOn g d = (product values).elim (.error (.failure ⟨.overflow, d, info⟩)) .ok) ∧
    ((∀ xs : List Decimal, xs.Sublist values → IsDecimal (xs.map toRat).prod) →
      ∀ ws, ws.Perm values → ∃ p, product ws = some p ∧ p.toRat = (values.map toRat).prod) := by
  refine ⟨foldlM_mul?_eq_none_iff, fun hr hvalues => ?_, fun h ws hws => ?_⟩
  · obtain ⟨-, rfl⟩ := Rule.multiply_eq_ok_iff.1 hr
    exact Rule.valueOn_product_eq (by rwa [List.ofFn_get])
  · have hone : one.toRat = 1 := by norm_num [one, toRat_ofNat]
    obtain ⟨p, hp, hval⟩ : ∃ p, ws.foldlM mul? one = some p ∧
        p.toRat = one.toRat * (ws.map toRat).prod := by
      refine exists_foldlM_mul?_eq fun xs hxs => ?_
      obtain ⟨ys, hys, hsub⟩ := hxs.sublist.subperm.trans hws.subperm
      rw [hone, one_mul, ← (hys.map toRat).prod_eq]
      exact h ys hsub
    exact ⟨p, hp, by rw [hval, hone, one_mul, (hws.map toRat).prod_eq]⟩

theorem product_any_order_fewPlaces :
    ∃ p, product fewPlaces.reverse = some p ∧ p.toRat = (fewPlaces.map toRat).prod :=
  (product_any_order fewPlaces).2.2 (fun _ => isDecimal_of_few (by decide) (by decide)) _
    fewPlaces.reverse_perm

/-- The largest decimal, a number and its reciprocal. -/
def largestFirst : List Decimal :=
  [largest, ofNat 1250000, ⟨false, 8, 7, by decide, by decide⟩]

/-- The product of these is a decimal, but the first two of them by themselves are out of range. -/
theorem product_largestFirst_ne : IsDecimal (largestFirst.map toRat).prod ∧
    product largestFirst = none ∧ product largestFirst.reverse = some largest ∧
    ∃ r, Rule.multiply (about "PRODUKT" "Produkt") (constants largestFirst) = .ok r ∧
      r.valueOn unevenBasis (newYear 2024) =
        .error (.failure ⟨.overflow, newYear 2024, about "PRODUKT" "Produkt"⟩) := by
  refine ⟨⟨largest, ?_⟩, rfl, by decide +kernel, _, rfl, rfl⟩
  norm_num [largestFirst, largest, toRat, signed, ofNat]

end Decimal

end DatedRules
