import DatedRules.Proofs.Amounts

/-!
# Magnitudes brought into range

`Decimal.fit` drops the fewest decimal places that bring a magnitude into range
(`surplus?_eq_some_iff`). It is out of range for good exactly from half a unit below `2 ^ 96` on
(`fit_eq_none_iff`). A magnitude that is in range at some scale loses zeros only, and so keeps its
value (`exists_fit_eq`).
-/

namespace DatedRules

theorem roundHalfEven_of_dvd {n d : ℕ} (hd : 0 < d) (h : d ∣ n) : roundHalfEven n d = n / d := by
  have hr : n % d = 0 := Nat.mod_eq_zero_of_dvd h
  unfold roundHalfEven
  simp only [hr]
  rw [if_neg (by omega)]

theorem roundHalfEven_le (n d : ℕ) : roundHalfEven n d ≤ n / d + 1 := by
  unfold roundHalfEven
  dsimp only
  split <;> omega

/-- The half-way case below an even number is rounded up to it. Rounding adds one at most, and so
the even number is reached from directly below only. -/
theorem le_roundHalfEven_iff {n d b : ℕ} (hd : 0 < d) (hb : b % 2 = 0) (h : n / d < b) :
    b ≤ roundHalfEven n d ↔ 2 * (b * d) ≤ 2 * n + d := by
  have hsplit := Nat.div_add_mod' n d
  have hrest := Nat.mod_lt n hd
  obtain ⟨c, rfl⟩ : ∃ c, b = n / d + 1 + c := ⟨b - (n / d + 1), by omega⟩
  have hmul : (n / d + 1 + c) * d = n / d * d + d + c * d := by ring
  have hc : c ≤ c * d := Nat.le_mul_of_pos_right c hd
  unfold roundHalfEven
  dsimp only
  rw [hmul]
  rcases Nat.eq_zero_or_pos c with rfl | hpos
  · split <;> omega
  · have hd' : d ≤ c * d := Nat.le_mul_of_pos_left d hpos
    split <;> omega

namespace Decimal

/-- Whether a magnitude `m / 10 ^ s` is in range when `k` decimal places are dropped. -/
def FitsLess (m s k : ℕ) : Prop := s - k ≤ 28 ∧ m / 10 ^ k < 2 ^ 96

theorem surplus?_eq_some_iff {m s k : ℕ} :
    surplus? m s = some k ↔ k ≤ s ∧ FitsLess m s k ∧ ∀ j < k, ¬ FitsLess m s j := by
  unfold surplus? FitsLess
  rw [List.find?_range_eq_some]
  simp only [Bool.and_eq_true, decide_eq_true_eq, List.mem_range, Bool.not_eq_true',
    Bool.and_eq_false_iff, decide_eq_false_iff_not, not_and_or]
  constructor
  · rintro ⟨h₁, h₂, h₃⟩
    exact ⟨by omega, h₁, h₃⟩
  · rintro ⟨h₁, h₂, h₃⟩
    exact ⟨h₂, by omega, h₃⟩

theorem surplus?_eq_none_iff {m s : ℕ} : surplus? m s = none ↔ 2 ^ 96 ≤ m / 10 ^ s := by
  unfold surplus?
  rw [List.find?_eq_none]
  simp only [List.mem_range, Bool.and_eq_true, decide_eq_true_eq, not_and, not_lt]
  constructor
  · intro h
    exact h s (by omega) (by omega)
  · intro h k hk _
    exact h.trans (Nat.div_le_div_left (Nat.pow_le_pow_right (by decide) (by omega))
      (Nat.pow_pos (by decide)))

theorem fit_lt {m s q t : ℕ} (h : fit m s = some (q, t)) : q < 2 ^ 96 ∧ t ≤ 28 := by
  unfold fit at h
  split at h
  · cases h
  · rename_i k hk
    obtain ⟨-, ⟨hplaces, hdigits⟩, -⟩ := surplus?_eq_some_iff.1 hk
    have hup := roundHalfEven_le m (10 ^ k)
    dsimp only at h
    split at h
    · rename_i hq
      cases h
      exact ⟨hq, hplaces⟩
    · split at h
      · cases h
        have := roundHalfEven_le (roundHalfEven m (10 ^ k)) 10
        exact ⟨by omega, by omega⟩
      · cases h

/-- A magnitude is too large from half a unit below `2 ^ 96` on, and never while there are places
left to drop. -/
theorem fit_eq_none_iff {m s : ℕ} :
    fit m s = none ↔ 2 * (2 ^ 96 * 10 ^ s) ≤ 2 * m + 10 ^ s := by
  have hs : 0 < 10 ^ s := Nat.pow_pos (by decide)
  unfold fit
  split
  · rename_i hk
    have hbig := (Nat.le_div_iff_mul_le hs).1 (surplus?_eq_none_iff.1 hk)
    exact ⟨fun _ => by omega, fun _ => rfl⟩
  · rename_i k hk
    obtain ⟨hks, ⟨-, hdigits⟩, -⟩ := surplus?_eq_some_iff.1 hk
    rcases Nat.lt_or_eq_of_le hks with hlt | rfl
    · have hk₀ : 0 < 10 ^ k := Nat.pow_pos (by decide)
      have hten : 10 * 10 ^ k ≤ 10 ^ s := by
        rw [← Nat.pow_succ']
        exact Nat.pow_le_pow_right (by decide) hlt
      have hm := (Nat.div_lt_iff_lt_mul hk₀).1 hdigits
      simp only [hlt, if_true]
      constructor
      · intro h
        split at h <;> cases h
      · intro h
        omega
    · rw [← le_roundHalfEven_iff hs (by decide) hdigits]
      simp only [Nat.lt_irrefl, if_false, ite_eq_right_iff, reduceCtorEq, imp_false, not_lt]

/-- A magnitude that is in range at some scale can lose decimal places that are zeros only. -/
theorem dvd_of_in_range {m s n t : ℕ} (hn : n < 2 ^ 96) (ht : t ≤ 28)
    (h : m * 10 ^ t = n * 10 ^ s) : 10 ^ (s - t) ∣ m ∧ FitsLess m s (s - t) := by
  have hpos : 0 < 10 ^ t := Nat.pow_pos (by decide)
  unfold FitsLess
  rcases Nat.le_total t s with hts | hst
  · have hm : m = n * 10 ^ (s - t) := by
      refine Nat.eq_of_mul_eq_mul_right hpos ?_
      rw [h, Nat.mul_assoc, ← Nat.pow_add, Nat.sub_add_cancel hts]
    refine ⟨⟨n, by rw [hm, Nat.mul_comm]⟩, by omega, ?_⟩
    rw [hm, Nat.mul_div_cancel n (Nat.pow_pos (by decide))]
    exact hn
  · have hmn : m * 10 ^ (t - s) = n := by
      refine Nat.eq_of_mul_eq_mul_right (Nat.pow_pos (n := s) (show 0 < 10 by decide)) ?_
      rw [← h, Nat.mul_assoc, ← Nat.pow_add, Nat.sub_add_cancel hst]
    have hle : m ≤ n := hmn ▸ Nat.le_mul_of_pos_right m (Nat.pow_pos (by decide))
    rw [Nat.sub_eq_zero_of_le hst, Nat.pow_zero, Nat.div_one]
    exact ⟨one_dvd m, by omega, by omega⟩

/-- A magnitude that is in range at some scale keeps its value: what is dropped are some of the
zeros that bring it to that scale. -/
theorem exists_fit_eq {m s n t : ℕ} (hn : n < 2 ^ 96) (ht : t ≤ 28)
    (h : m * 10 ^ t = n * 10 ^ s) : ∃ q u, fit m s = some (q, u) ∧ q * 10 ^ s = m * 10 ^ u := by
  obtain ⟨hdvd, hfits⟩ := dvd_of_in_range hn ht h
  obtain ⟨k, hk⟩ : ∃ k, surplus? m s = some k := by
    rw [← Option.isSome_iff_exists, ← Option.ne_none_iff_isSome, Ne, surplus?_eq_none_iff]
    have hle : m / 10 ^ s ≤ m / 10 ^ (s - t) := Nat.div_le_div_left
      (Nat.pow_le_pow_right (by decide) (Nat.sub_le s t)) (Nat.pow_pos (by decide))
    exact fun hbig => Nat.lt_irrefl _ (hbig.trans_lt (hle.trans_lt hfits.2))
  obtain ⟨hks, ⟨-, hdigits⟩, hleast⟩ := surplus?_eq_some_iff.1 hk
  have hkt : k ≤ s - t := not_lt.1 fun hlt => hleast _ hlt hfits
  have hdvd' : 10 ^ k ∣ m := (Nat.pow_dvd_pow 10 hkt).trans hdvd
  have hround : roundHalfEven m (10 ^ k) = m / 10 ^ k :=
    roundHalfEven_of_dvd (Nat.pow_pos (by decide)) hdvd'
  refine ⟨m / 10 ^ k, s - k, ?_, ?_⟩
  · rw [fit, hk]
    simp only [hround, hdigits, if_true]
  · calc m / 10 ^ k * 10 ^ s = m / 10 ^ k * 10 ^ k * 10 ^ (s - k) := by
          rw [Nat.mul_assoc, ← Nat.pow_add, Nat.add_sub_cancel' hks]
      _ = m * 10 ^ (s - k) := by rw [Nat.div_mul_cancel hdvd']

end Decimal
end DatedRules
