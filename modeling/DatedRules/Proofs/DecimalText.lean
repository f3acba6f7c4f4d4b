import DatedRules.Decimal.Text
import DatedRules.Proofs.DateText

/-!
# What the text of a decimal tells

The text of a decimal has its sign, its digits and a point in front of as many digits as it has
decimal places (`Decimal.exists_chars_eq`). So the mantissa, the scale and the sign can be read off
it, and no two decimals have one text (`Decimal.toText_injective`): numbers that are equal but have
different scales are told apart, and so is a zero with a sign.
-/

namespace DatedRules

namespace Decimal

open Text (padded)

/-- The text is the sign, at least one digit, and the point and one digit for each decimal place if
there are any. -/
theorem exists_chars_eq (a : Decimal) : ∃ whole places, whole ≠ [] ∧ places.length = a.scale ∧
    (∀ c ∈ whole, c.isDigit = true) ∧ (∀ c ∈ places, c.isDigit = true) ∧
    whole ++ places = padded (a.scale + 1) a.mantissa ∧
    a.chars = (if a.negative then ['-'] else []) ++ whole ++
      (if a.scale = 0 then [] else '.' :: places) := by
  have hall : ∀ c ∈ padded (a.scale + 1) a.mantissa, c.isDigit = true :=
    fun _ => Text.isDigit_of_mem_padded
  have hlen : a.scale < (padded (a.scale + 1) a.mantissa).length := by
    rw [padded, List.length_append, List.length_replicate]
    omega
  unfold chars
  generalize padded (a.scale + 1) a.mantissa = ds at hall hlen ⊢
  refine ⟨ds.take (ds.length - a.scale), ds.drop (ds.length - a.scale), ?_, ?_,
    fun c hc => hall c (List.mem_of_mem_take hc), fun c hc => hall c (List.mem_of_mem_drop hc),
    List.take_append_drop _ _, rfl⟩
  · rw [← List.length_pos_iff, List.length_take]
    omega
  · rw [List.length_drop]
    omega

theorem filter_isDigit_chars (a : Decimal) :
    a.chars.filter Char.isDigit = padded (a.scale + 1) a.mantissa := by
  obtain ⟨whole, places, -, hlen, hwhole, hplaces, hdigits, hchars⟩ := a.exists_chars_eq
  have hsign : (if a.negative then ['-'] else []).filter Char.isDigit = [] := by
    split <;> rfl
  have htail : (if a.scale = 0 then [] else '.' :: places).filter Char.isDigit = places := by
    split
    · rename_i h
      exact (List.eq_nil_of_length_eq_zero (hlen.trans h)).symm
    · rw [List.filter_cons_of_neg (by decide), List.filter_eq_self.2 hplaces]
  rw [hchars, List.filter_append, List.filter_append, hsign, List.filter_eq_self.2 hwhole, htail,
    List.nil_append, hdigits]

/-- There are as many characters after the point as decimal places. -/
theorem length_dropWhile_chars (a : Decimal) :
    (a.chars.dropWhile (· ≠ '.')).length - 1 = a.scale := by
  obtain ⟨whole, places, -, hlen, hwhole, -, -, hchars⟩ := a.exists_chars_eq
  have hbefore : ∀ c ∈ (if a.negative then ['-'] else []) ++ whole, decide (c ≠ '.') = true := by
    intro c hc
    rw [decide_eq_true_eq]
    rintro rfl
    rcases List.mem_append.1 hc with hc | hc
    · split at hc <;> simp at hc
    · exact absurd (hwhole _ hc) (by decide)
  rw [hchars, List.dropWhile_append_of_pos hbefore]
  split
  · simp [*]
  · simp [hlen]

/-- The text begins with a hyphen if and only if the decimal has the sign. -/
theorem head?_chars (a : Decimal) : a.chars.head? = some '-' ↔ a.negative = true := by
  obtain ⟨whole, places, hne, -, hwhole, -, -, hchars⟩ := a.exists_chars_eq
  obtain ⟨c, cs, rfl⟩ := List.exists_cons_of_ne_nil hne
  have hc : c ≠ '-' := by
    rintro rfl
    exact absurd (hwhole '-' (List.mem_cons_self ..)) (by decide)
  rw [hchars]
  by_cases h : a.negative = true <;> simp [h, hc]

theorem toText_injective : Function.Injective toText := by
  intro a b h
  have hchars : a.chars = b.chars := String.ofList_injective h
  have hscale : a.scale = b.scale := by
    rw [← length_dropWhile_chars, hchars, length_dropWhile_chars]
  have hmantissa : a.mantissa = b.mantissa := by
    rw [← Text.ofDigitChars_padded (a.scale + 1) a.mantissa, ← filter_isDigit_chars, hchars,
      filter_isDigit_chars, Text.ofDigitChars_padded]
  have hnegative : a.negative = b.negative := by
    rw [Bool.eq_iff_iff, ← head?_chars, hchars, head?_chars]
  cases a
  cases b
  simp_all

end Decimal

end DatedRules
