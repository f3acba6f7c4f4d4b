import DatedRules.Calendar.Date
import Mathlib.Data.List.Basic

/-!
# Dates read back

A number written in as many digits as it is padded to reads back as that number
(`ofDigits?_padded`), and so the characters of a date read back as that date, a digit in front not
being taken for a sign (`Date.ofChars?_chars`): no two dates have one text (`Date.chars_injective`).
The characters are digits and hyphens (`Date.mem_chars`).
-/

namespace DatedRules

namespace Text

theorem digit?_of_isDigit {c : Char} (h : c.isDigit = true) :
    digit? c = some (c.toNat - '0'.toNat) := by
  have hle : '0' ≤ c ∧ c ≤ '9' := by
    simpa [Char.isDigit, Char.le_def] using h
  rw [digit?, if_pos hle]

theorem ofDigitsFrom?_eq : ∀ {cs : List Char} (n : Nat), (∀ c ∈ cs, c.isDigit = true) →
    ofDigitsFrom? n cs = some (Nat.ofDigitChars 10 cs n)
  | [], n, _ => rfl
  | c :: cs, n, h => by
    rw [List.forall_mem_cons] at h
    rw [ofDigitsFrom?, digit?_of_isDigit h.1, Option.bind_some, ofDigitsFrom?_eq _ h.2,
      Nat.ofDigitChars_cons, Nat.mul_comm]

theorem isDigit_of_mem_digits {n : Nat} {c : Char} (h : c ∈ digits n) : c.isDigit = true :=
  Nat.isDigit_of_mem_toDigits (by decide) (by decide) h

theorem isDigit_of_mem_padded {width n : Nat} {c : Char} (h : c ∈ padded width n) :
    c.isDigit = true := by
  rcases List.mem_append.1 h with h | h
  · rw [List.eq_of_mem_replicate h]
    rfl
  · exact isDigit_of_mem_digits h

theorem length_padded {width n : Nat} (hw : 0 < width) (h : n < 10 ^ width) :
    (padded width n).length = width := by
  have hlen : (digits n).length ≤ width :=
    (Nat.length_toDigits_le_iff (by decide) hw).2 h
  rw [padded, List.length_append, List.length_replicate]
  omega

theorem ofDigitChars_padded (width n : Nat) : Nat.ofDigitChars 10 (padded width n) 0 = n := by
  have hzeros : ∀ k, Nat.ofDigitChars 10 (List.replicate k '0') 0 = 0 := by
    intro k
    induction k with
    | zero => rfl
    | succ k ih => rwa [List.replicate_succ, Nat.ofDigitChars_cons]
  rw [padded, Nat.ofDigitChars_append, hzeros]
  exact Nat.ofDigitChars_ten_toDigits

theorem ofDigits?_padded {width n : Nat} (hw : 0 < width) (h : n < 10 ^ width) :
    ofDigits? (padded width n) = some n := by
  have hne : (padded width n).isEmpty = false := by
    rw [List.isEmpty_eq_false_iff, ← List.length_pos_iff, length_padded hw h]
    exact hw
  rw [ofDigits?, hne, ofDigitsFrom?_eq 0 fun c => isDigit_of_mem_padded, ofDigitChars_padded]
  rfl

end Text

namespace Date

open Text (padded)

theorem mem_chars {d : Date} {c : Char} (h : c ∈ d.chars) : c.isDigit = true ∨ c = '-' := by
  unfold chars at h
  simp only [List.mem_append, List.mem_cons] at h
  rcases h with ((h | h) | h | h) | h | h
  · split at h <;> simp_all
  · exact .inl (Text.isDigit_of_mem_padded h)
  · exact .inr h
  · exact .inl (Text.isDigit_of_mem_padded h)
  · exact .inr h
  · exact .inl (Text.isDigit_of_mem_padded h)

theorem of?_eq_some (d : Date) : of? d.year d.month d.day = some d :=
  dif_pos ⟨d.year_mem, d.isDay⟩

/-- What the fields of a date write, eight digits and two hyphens, is read back place by place. -/
theorem ofFields?_padded {negative : Bool} {d : Date}
    (h : (if negative then -(d.year.natAbs : Int) else d.year.natAbs) = d.year) :
    ofFields? negative
      (padded 4 d.year.natAbs ++ '-' :: padded 2 d.month ++ '-' :: padded 2 d.day) = some d := by
  have hy : d.year.natAbs < 10 ^ 4 := by have := d.year_mem; omega
  have hm : d.month < 10 ^ 2 := by have := d.isDay.2.1; omega
  have hd : d.day < 10 ^ 2 := by have := d.day_le; omega
  have hy' := Text.ofDigits?_padded (by decide) hy
  have hm' := Text.ofDigits?_padded (by decide) hm
  have hd' := Text.ofDigits?_padded (by decide) hd
  obtain ⟨y₁, y₂, y₃, y₄, hys⟩ := List.length_eq_four.1 (Text.length_padded (by decide) hy)
  obtain ⟨m₁, m₂, hms⟩ := List.length_eq_two.1 (Text.length_padded (by decide) hm)
  obtain ⟨d₁, d₂, hds⟩ := List.length_eq_two.1 (Text.length_padded (by decide) hd)
  rw [hys] at hy' ⊢
  rw [hms] at hm' ⊢
  rw [hds] at hd' ⊢
  simp only [List.cons_append, List.nil_append, ofFields?, hy', hm', hd', Option.bind_eq_bind,
    Option.bind_some, h]
  exact of?_eq_some d

theorem ofChars?_chars (d : Date) : ofChars? d.chars = some d := by
  have hyear := d.year_mem
  unfold chars
  split
  · exact ofFields?_padded (by rw [if_pos rfl]; omega)
  · have hread := @ofFields?_padded false d (by rw [if_neg (by decide)]; omega)
    have hlen : (padded 4 d.year.natAbs).length = 4 := Text.length_padded (by decide) (by omega)
    obtain ⟨y₁, y₂, y₃, y₄, hys⟩ := List.length_eq_four.1 hlen
    have hdigit : y₁.isDigit = true := Text.isDigit_of_mem_padded (hys ▸ List.mem_cons_self ..)
    rw [hys] at hread
    rw [List.nil_append, hys]
    unfold ofChars?
    split
    · rename_i heq
      rw [(List.cons.inj heq).1] at hdigit
      cases hdigit
    · rename_i heq
      rw [(List.cons.inj heq).1] at hdigit
      cases hdigit
    · exact hread

theorem chars_injective : Function.Injective chars := fun a b h =>
  Option.some.inj ((ofChars?_chars a).symm.trans (h ▸ ofChars?_chars b))

theorem toText_injective : Function.Injective toText := fun _ _ h =>
  chars_injective (String.ofList_injective h)

theorem ofText?_toText (d : Date) : ofText? d.toText = some d := by
  rw [ofText?, toText, String.toList_ofList, ofChars?_chars]

end Date

end DatedRules
