import DatedRules.Proofs.DateText
import DatedRules.Report

/-!
# The texts of a date

Characters write a date by its numbers: four digits for the year, after a sign or none, two for the
month and two for the day (`Spells`). Digits of one width are known by the number that they write
(`Text.Numeral.eq_padded`), so that of all texts of a date only the sign is left open
(`Spells.cases`): a `+` may come first from year 0 on, and a `-` in year 0. All of these are read as
the date, and nothing else is (`Date.ofChars?_eq_some_iff`).

Which numbers are those of a date is said by the calendar alone (`isDay_iff`). What is written for a
date, in the bounds of a period and for the first day of a rule, is read back (`Date.read_texts`).
-/

namespace DatedRules

/-- Whether the Gregorian calendar has a day. It is carried on to all years, year 0 among them. -/
def Gregorian (year : Int) (month day : Nat) : Prop :=
  1 ≤ day ∧
    (month ∈ [1, 3, 5, 7, 8, 10, 12] ∧ day ≤ 31 ∨ month ∈ [4, 6, 9, 11] ∧ day ≤ 30 ∨
      month = 2 ∧ (day ≤ 28 ∨ day = 29 ∧ 4 ∣ year ∧ (¬ 100 ∣ year ∨ 400 ∣ year)))

theorem isLeap_iff {year : Int} : isLeap year = true ↔ 4 ∣ year ∧ (¬ 100 ∣ year ∨ 400 ∣ year) := by
  simp only [isLeap, Bool.and_eq_true, Bool.or_eq_true, bne_iff_ne, beq_iff_eq]
  omega

theorem isDay_iff {year : Int} {month day : Nat} :
    IsDay year month day ↔ Gregorian year month day := by
  simp only [IsDay, Gregorian, List.mem_cons, List.not_mem_nil, or_false]
  unfold daysIn
  split
  case h_12 =>
    split
    · rename_i h
      have := isLeap_iff.1 h
      omega
    · rename_i h
      have := mt isLeap_iff.2 h
      omega
  case h_13 =>
    simp_all
    omega
  all_goals omega

namespace Text

/-- Whether characters are as many digits as the width and write a number. -/
structure Numeral (width : Nat) (cs : List Char) (n : Nat) : Prop where
  length : cs.length = width
  digits : ∀ c ∈ cs, c.isDigit = true
  value : Nat.ofDigitChars 10 cs 0 = n

theorem ofDigitChars_lt : ∀ {cs : List Char} (n : Nat), (∀ c ∈ cs, c.isDigit = true) →
    Nat.ofDigitChars 10 cs n < (n + 1) * 10 ^ cs.length
  | [], n, _ => by simp
  | c :: cs, n, h => by
    rw [List.forall_mem_cons, Char.isDigit_iff_toNat] at h
    have hc : c.toNat ≤ 57 := h.1.2
    have ih := ofDigitChars_lt (10 * n + (c.toNat - 48)) h.2
    rw [Nat.ofDigitChars_cons, List.length_cons, Nat.pow_succ', ← Nat.mul_assoc]
    exact Nat.lt_of_lt_of_le ih (Nat.mul_le_mul_right _ (by omega))

theorem ofDigitChars_inj : ∀ {as bs : List Char} {m n : Nat}, as.length = bs.length →
    (∀ c ∈ as, c.isDigit = true) → (∀ c ∈ bs, c.isDigit = true) →
      Nat.ofDigitChars 10 as m = Nat.ofDigitChars 10 bs n → m = n ∧ as = bs
  | [], [], m, n, _, _, _, h => ⟨h, rfl⟩
  | a :: as, b :: bs, m, n, hlen, has, hbs, h => by
    rw [List.forall_mem_cons, Char.isDigit_iff_toNat] at has hbs
    rw [Nat.ofDigitChars_cons, Nat.ofDigitChars_cons] at h
    obtain ⟨hmn, rfl⟩ := ofDigitChars_inj (Nat.succ.inj hlen) has.2 hbs.2 h
    obtain ⟨⟨ha, ha'⟩, -⟩ := has
    obtain ⟨⟨hb, hb'⟩, -⟩ := hbs
    simp only [Char.reduceToNat] at ha ha' hb hb' hmn
    have hab : a.toNat = b.toNat := by omega
    exact ⟨by omega, by rw [Char.toNat_inj.1 hab]⟩

theorem numeral_padded {width n : Nat} (hw : 0 < width) (h : n < 10 ^ width) :
    Numeral width (padded width n) n :=
  ⟨length_padded hw h, fun _ => isDigit_of_mem_padded, ofDigitChars_padded width n⟩

theorem Numeral.lt {width n : Nat} {cs : List Char} (h : Numeral width cs n) : n < 10 ^ width := by
  have hlt := ofDigitChars_lt 0 h.digits
  rwa [h.value, h.length, Nat.zero_add, Nat.one_mul] at hlt

theorem Numeral.eq_padded {width n : Nat} {cs : List Char} (hw : 0 < width)
    (h : Numeral width cs n) : cs = padded width n := by
  have hp := numeral_padded hw h.lt
  exact (ofDigitChars_inj (h.length.trans hp.length.symm) h.digits hp.digits
    (h.value.trans hp.value.symm)).2

theorem isDigit_of_digit? {c : Char} {n : Nat} (h : digit? c = some n) :
    c.isDigit = true ∧ n = c.toNat - '0'.toNat := by
  unfold digit? at h
  split at h
  · rename_i hc
    exact ⟨by simpa [Char.isDigit, Char.le_def] using hc, (Option.some.inj h).symm⟩
  · cases h

theorem digits_of_ofDigitsFrom? : ∀ {cs : List Char} {m n : Nat}, ofDigitsFrom? m cs = some n →
    ∀ c ∈ cs, c.isDigit = true
  | [], _, _, _ => nofun
  | c :: cs, m, n, h => by
    rw [ofDigitsFrom?, Option.bind_eq_some_iff] at h
    obtain ⟨d, hd, h⟩ := h
    rw [List.forall_mem_cons]
    exact ⟨(isDigit_of_digit? hd).1, digits_of_ofDigitsFrom? h⟩

theorem numeral_of_ofDigits? {cs : List Char} {n : Nat} (h : ofDigits? cs = some n) :
    Numeral cs.length cs n := by
  unfold ofDigits? at h
  split at h
  · cases h
  · have hdigits := digits_of_ofDigitsFrom? h
    rw [ofDigitsFrom?_eq 0 hdigits, Option.some.injEq] at h
    exact ⟨rfl, hdigits, h⟩

end Text

open Text (Numeral padded)

/-- Whether characters are four digits, two and two with hyphens in between, after a sign or none,
and write these numbers. -/
def Spells (cs : List Char) (year : Int) (month day : Nat) : Prop :=
  ∃ (sign ys ms ds : List Char) (y : Nat), cs = sign ++ ys ++ '-' :: ms ++ '-' :: ds ∧
    Numeral 4 ys y ∧ Numeral 2 ms month ∧ Numeral 2 ds day ∧
      ((sign = [] ∨ sign = ['+']) ∧ year = y ∨ sign = ['-'] ∧ year = -y)

namespace Date

theorem of?_eq_some_iff {year : Int} {month day : Nat} {d : Date} :
    of? year month day = some d ↔ d.year = year ∧ d.month = month ∧ d.day = day := by
  constructor
  · intro h
    unfold of? at h
    split at h <;> cases h
    exact ⟨rfl, rfl, rfl⟩
  · rintro ⟨rfl, rfl, rfl⟩
    exact of?_eq_some d

/-- The characters of a date's numbers, without a sign. -/
def fields (d : Date) : List Char :=
  padded 4 d.year.natAbs ++ '-' :: padded 2 d.month ++ '-' :: padded 2 d.day

theorem chars_eq (d : Date) : d.chars = (if d.year < 0 then ['-'] else []) ++ d.fields := by
  simp [chars, fields]

theorem exists_of_ofFields? {negative : Bool} {cs : List Char} {d : Date}
    (h : ofFields? negative cs = some d) : ∃ (ys ms ds : List Char) (y : Nat),
      cs = ys ++ '-' :: ms ++ '-' :: ds ∧ Numeral 4 ys y ∧ Numeral 2 ms d.month ∧
        Numeral 2 ds d.day ∧ d.year = if negative then -(y : Int) else y := by
  unfold ofFields? at h
  split at h
  · rename_i y₁ y₂ y₃ y₄ m₁ m₂ d₁ d₂
    simp only [Option.bind_eq_bind, Option.bind_eq_some_iff, of?_eq_some_iff] at h
    obtain ⟨y, hy, m, hm, n, hn, hyear, rfl, rfl⟩ := h
    exact ⟨[y₁, y₂, y₃, y₄], [m₁, m₂], [d₁, d₂], y, rfl, Text.numeral_of_ofDigits? hy,
      Text.numeral_of_ofDigits? hm, Text.numeral_of_ofDigits? hn, hyear⟩
  · cases h

theorem spells_of_ofChars? {cs : List Char} {d : Date} (h : ofChars? cs = some d) :
    Spells cs d.year d.month d.day := by
  unfold ofChars? at h
  split at h <;> obtain ⟨ys, ms, ds, y, rfl, hys, hms, hds, hyear⟩ := exists_of_ofFields? h
  · exact ⟨['-'], ys, ms, ds, y, rfl, hys, hms, hds, .inr ⟨rfl, hyear⟩⟩
  · exact ⟨['+'], ys, ms, ds, y, rfl, hys, hms, hds, .inl ⟨.inr rfl, hyear⟩⟩
  · exact ⟨[], ys, ms, ds, y, rfl, hys, hms, hds, .inl ⟨.inl rfl, hyear⟩⟩

end Date

/-- Numbers leave only the sign open. -/
theorem Spells.cases {cs : List Char} {d : Date} (h : Spells cs d.year d.month d.day) :
    cs = d.chars ∨ 0 ≤ d.year ∧ cs = '+' :: d.chars ∨ d.year = 0 ∧ cs = '-' :: d.chars := by
  obtain ⟨sign, ys, ms, ds, y, rfl, hys, hms, hds, hsign⟩ := h
  have hy : y = d.year.natAbs := by omega
  have hfields : ys ++ '-' :: ms ++ '-' :: ds = d.fields := by
    rw [hys.eq_padded (by decide), hms.eq_padded (by decide), hds.eq_padded (by decide), hy]
    rfl
  have hcs : sign ++ ys ++ '-' :: ms ++ '-' :: ds = sign ++ d.fields := by
    simp [← hfields]
  rw [hcs, d.chars_eq]
  rcases hsign with ⟨rfl | rfl, hyear⟩ | ⟨rfl, hyear⟩
  · have hpos : ¬ d.year < 0 := by omega
    simp [hpos]
  · have hpos : ¬ d.year < 0 := by omega
    simp only [hpos, if_false]
    exact .inr (.inl ⟨by omega, rfl⟩)
  · by_cases hneg : d.year < 0
    · simp [hneg]
    · simp only [hneg, if_false]
      exact .inr (.inr ⟨by omega, rfl⟩)

namespace Date

theorem ofChars?_plus {d : Date} (h : 0 ≤ d.year) : ofChars? ('+' :: d.chars) = some d := by
  have hpos : ¬ d.year < 0 := by omega
  rw [chars_eq, if_neg hpos]
  exact ofFields?_padded (by rw [if_neg (by decide)]; omega)

theorem ofChars?_minus {d : Date} (h : d.year = 0) : ofChars? ('-' :: d.chars) = some d := by
  have hpos : ¬ d.year < 0 := by omega
  rw [chars_eq, if_neg hpos]
  exact ofFields?_padded (by rw [if_pos rfl]; omega)

theorem ofChars?_eq_some_iff {cs : List Char} {d : Date} : ofChars? cs = some d ↔
    cs = d.chars ∨ 0 ≤ d.year ∧ cs = '+' :: d.chars ∨ d.year = 0 ∧ cs = '-' :: d.chars := by
  refine ⟨fun h => (spells_of_ofChars? h).cases, ?_⟩
  rintro (rfl | ⟨h, rfl⟩ | ⟨h, rfl⟩)
  · exact ofChars?_chars d
  · exact ofChars?_plus h
  · exact ofChars?_minus h

theorem read_eq_ok_iff {text : String} {d : Date} :
    read text = .ok d ↔ ofChars? text.toList = some d := by
  unfold read ofText?
  cases ofChars? text.toList <;> simp

theorem read_toText (d : Date) : read d.toText = .ok d :=
  read_eq_ok_iff.2 (ofText?_toText d)

theorem read_eq_ok_iff_sign {text : String} {d : Date} : read text = .ok d ↔ text = d.toText ∨
    0 ≤ d.year ∧ text = "+" ++ d.toText ∨ d.year = 0 ∧ text = "-" ++ d.toText := by
  rw [read_eq_ok_iff, ofChars?_eq_some_iff]
  simp [← String.toList_inj, toText]

/-- A text is read as the date whose numbers it spells, if the calendar has that day. -/
theorem exists_read_iff {text : String} {year : Int} {month day : Nat} :
    (∃ d, read text = .ok d ∧ d.year = year ∧ d.month = month ∧ d.day = day) ↔
      Spells text.toList year month day ∧ Gregorian year month day := by
  constructor
  · rintro ⟨d, hd, rfl, rfl, rfl⟩
    exact ⟨spells_of_ofChars? (read_eq_ok_iff.1 hd), isDay_iff.1 d.isDay⟩
  · rintro ⟨hspells, hday⟩
    have hyear : -9999 ≤ year ∧ year ≤ 9999 := by
      obtain ⟨sign, ys, ms, ds, y, -, hys, -, -, hsign⟩ := hspells
      have := hys.lt
      omega
    let d : Date := ⟨year, month, day, hyear, isDay_iff.2 hday⟩
    have htext : Spells text.toList d.year d.month d.day := hspells
    exact ⟨d, read_eq_ok_iff.2 (ofChars?_eq_some_iff.2 htext.cases), rfl, rfl, rfl⟩

end Date

/-- The date in a field of an object. -/
def Json.date? (name : String) : Json → Option Date
  | .object members =>
    match members.lookup name with
    | some (.string text) => (Date.read text).toOption
    | _ => none
  | _ => none

theorem Json.date?_object {name : String} {members : List (String × Json)} {d : Date}
    (h : members.lookup name = some (.string d.toText)) :
    (Json.object members).date? name = some d := by
  simp [Json.date?, h, Date.read_toText, Except.toOption]

namespace Period

/-- The dates in the text of a period: one up to the comma, and one after it up to the end. -/
def datesOf (text : String) : Option Date × Option Date :=
  let bounds := text.toList.drop 1
  let last := (bounds.dropWhile (· != ',')).drop 2
  ((Date.read (String.ofList (bounds.takeWhile (· != ',')))).toOption,
    (Date.read (String.ofList (last.takeWhile (· != ')')))).toOption)

theorem datesOf_ofList {first last : List Char} (hfirst : ',' ∉ first) (hlast : ')' ∉ last) :
    datesOf (String.ofList ('[' :: first ++ ',' :: ' ' :: last ++ [')'])) =
      ((Date.read (String.ofList first)).toOption, (Date.read (String.ofList last)).toOption) := by
  have hf : ∀ c ∈ first, (c != ',') = true := fun c hc => bne_iff_ne.2 fun h => hfirst (h ▸ hc)
  have hl : ∀ c ∈ last, (c != ')') = true := fun c hc => bne_iff_ne.2 fun h => hlast (h ▸ hc)
  simp [datesOf, List.takeWhile_append_of_pos hf, List.dropWhile_append_of_pos hf,
    List.takeWhile_append_of_pos hl]

theorem datesOf_toText (p : Period) : datesOf p.toText = (some p.start, p.stop) := by
  have hplain : ∀ d : Date, ',' ∉ d.chars ∧ ')' ∉ d.chars := by
    intro d
    constructor <;> intro h <;> rcases Date.mem_chars h with h | h <;> revert h <;> decide
  have hread : ∀ d : Date, (Date.read (String.ofList d.chars)).toOption = some d := by
    intro d
    rw [← Date.toText, Date.read_toText]
    rfl
  rcases hstop : p.stop with _ | stop
  · have htext : p.toText =
        String.ofList ('[' :: p.start.chars ++ ',' :: ' ' :: ['.', '.', '.'] ++ [')']) := by
      simp [toText, hstop, ← String.toList_inj, Date.toText]
    rw [htext, datesOf_ofList (hplain _).1 (by decide), hread]
    rfl
  · have htext : p.toText =
        String.ofList ('[' :: p.start.chars ++ ',' :: ' ' :: stop.chars ++ [')']) := by
      simp [toText, hstop, ← String.toList_inj, Date.toText]
    rw [htext, datesOf_ofList (hplain _).1 (hplain _).2, hread, hread]

theorem date?_toJson (p : Period) :
    p.toJson.date? "from" = some p.start ∧ p.toJson.date? "to" = p.stop := by
  refine ⟨Json.date?_object rfl, ?_⟩
  rcases p with ⟨start, _ | stop, h⟩
  · rfl
  · exact Json.date?_object rfl

end Period

namespace Date

/-- What is written for a date is read back. A text is read as a date if and only if it spells the
numbers of a day that the calendar has. So no two dates have one text, and the texts of one date
differ in a `+` that may come first and, in year 0, in the sign. -/
theorem read_texts :
    (∀ d : Date, read d.toText = .ok d) ∧
    (∀ p : Period, p.toJson.date? "from" = some p.start ∧ p.toJson.date? "to" = p.stop ∧
      Period.datesOf p.toText = (some p.start, p.stop)) ∧
    (∀ info : RuleInfo, info.toJson.date? "valid_from" = some info.validFrom) ∧
    (∀ (text : String) (year : Int) (month day : Nat),
      (∃ d, read text = .ok d ∧ d.year = year ∧ d.month = month ∧ d.day = day) ↔
        Spells text.toList year month day ∧ Gregorian year month day) ∧
    (∀ (text : String) (d : Date), read text = .ok d ↔ text = d.toText ∨
      0 ≤ d.year ∧ text = "+" ++ d.toText ∨ d.year = 0 ∧ text = "-" ++ d.toText) ∧
    Function.Injective toText :=
  ⟨read_toText, fun p => ⟨p.date?_toJson.1, p.date?_toJson.2, p.datesOf_toText⟩,
    fun _ => Json.date?_object rfl, fun _ _ _ _ => exists_read_iff, fun _ _ => read_eq_ok_iff_sign,
    toText_injective⟩

end Date

end DatedRules
