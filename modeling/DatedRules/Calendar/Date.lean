import DatedRules.Text.Digits

/-!
# Dates

A date is a day of the proleptic Gregorian calendar, which has a year 0, in the years -9999 to 9999.
Dates are ordered by `Date.rank`, a whole number that no two dates share (`Date.rank_inj`).

The text of a date has four digits for the year, after a `-` for a negative one, and two each for
month and day. Read are such texts, and also those with a `+` or with a `-` before year 0.
-/

namespace DatedRules

/-- Whether the year has a 29 February. -/
def isLeap (year : Int) : Bool :=
  year % 4 == 0 && (year % 100 != 0 || year % 400 == 0)

/-- The length of a month; zero if the year has no such month. -/
def daysIn (year : Int) (month : Nat) : Nat :=
  match month with
  | 1 | 3 | 5 | 7 | 8 | 10 | 12 => 31
  | 4 | 6 | 9 | 11 => 30
  | 2 => if isLeap year then 29 else 28
  | _ => 0

/-- Whether the calendar has this day. -/
def IsDay (year : Int) (month day : Nat) : Prop :=
  1 ≤ month ∧ month ≤ 12 ∧ 1 ≤ day ∧ day ≤ daysIn year month

instance (year : Int) (month day : Nat) : Decidable (IsDay year month day) := by
  unfold IsDay
  infer_instance

/-- A day of the calendar. -/
structure Date where
  year : Int
  month : Nat
  day : Nat
  year_mem : -9999 ≤ year ∧ year ≤ 9999
  isDay : IsDay year month day
deriving DecidableEq

theorem daysIn_le (year : Int) (month : Nat) : daysIn year month ≤ 31 := by
  unfold daysIn
  split <;> (try split) <;> decide

namespace Date

/-- The date with these parts, if there is one. -/
def of? (year : Int) (month day : Nat) : Option Date :=
  if h : (-9999 ≤ year ∧ year ≤ 9999) ∧ IsDay year month day then
    some ⟨year, month, day, h.1, h.2⟩
  else none

/-- Counts up with the dates, leaving gaps. -/
def rank (d : Date) : Int := d.year * 400 + d.month * 32 + d.day

instance : LT Date := ⟨fun a b => a.rank < b.rank⟩

instance : LE Date := ⟨fun a b => a.rank ≤ b.rank⟩

instance (a b : Date) : Decidable (a < b) := inferInstanceAs (Decidable (a.rank < b.rank))

instance (a b : Date) : Decidable (a ≤ b) := inferInstanceAs (Decidable (a.rank ≤ b.rank))

theorem lt_iff {a b : Date} : a < b ↔ a.rank < b.rank := Iff.rfl

theorem le_iff {a b : Date} : a ≤ b ↔ a.rank ≤ b.rank := Iff.rfl

theorem day_le (d : Date) : d.day ≤ 31 :=
  Nat.le_trans d.isDay.2.2.2 (daysIn_le _ _)

theorem rank_inj {a b : Date} (h : a.rank = b.rank) : a = b := by
  have ha := a.isDay
  have hb := b.isDay
  have ha' := a.day_le
  have hb' := b.day_le
  unfold IsDay at ha hb
  unfold rank at h
  have hy : a.year = b.year := by omega
  have hm : a.month = b.month := by omega
  have hd : a.day = b.day := by omega
  cases a
  cases b
  simp_all

theorem lt_irrefl (a : Date) : ¬ a < a := by simp [lt_iff]

theorem le_refl (a : Date) : a ≤ a := by simp [le_iff]

theorem lt_trans {a b c : Date} (h : a < b) (h' : b < c) : a < c := by
  simp only [lt_iff] at *
  omega

theorem lt_of_lt_of_le {a b c : Date} (h : a < b) (h' : b ≤ c) : a < c := by
  simp only [lt_iff, le_iff] at *
  omega

theorem lt_of_le_of_lt {a b c : Date} (h : a ≤ b) (h' : b < c) : a < c := by
  simp only [lt_iff, le_iff] at *
  omega

theorem le_trans {a b c : Date} (h : a ≤ b) (h' : b ≤ c) : a ≤ c := by
  simp only [le_iff] at *
  omega

theorem le_of_lt {a b : Date} (h : a < b) : a ≤ b := by
  simp only [lt_iff, le_iff] at *
  omega

theorem not_lt {a b : Date} : ¬ a < b ↔ b ≤ a := by
  simp only [lt_iff, le_iff]
  omega

theorem not_le {a b : Date} : ¬ a ≤ b ↔ b < a := by
  simp only [lt_iff, le_iff]
  omega

theorem le_antisymm {a b : Date} (h : a ≤ b) (h' : b ≤ a) : a = b := by
  simp only [le_iff] at *
  exact rank_inj (by omega)

theorem lt_of_le_of_ne {a b : Date} (h : a ≤ b) (h' : a ≠ b) : a < b := by
  rw [← not_le]
  exact fun h'' => h' (le_antisymm h h'')

theorem le_total (a b : Date) : a ≤ b ∨ b ≤ a := by
  simp only [le_iff]
  omega

theorem pairwise_mergeSort {α : Type _} (date : α → Date) (xs : List α) :
    (xs.mergeSort fun a b => date a ≤ date b).Pairwise fun a b => date a ≤ date b := by
  refine (List.pairwise_mergeSort ?_ ?_ xs).imp fun h => by simpa using h
  · simpa using fun a b c => @le_trans (date a) (date b) (date c)
  · simpa using fun a b => le_total (date a) (date b)

open Text (padded ofDigits?)

/-- The characters of a date. -/
def chars (d : Date) : List Char :=
  (if d.year < 0 then ['-'] else []) ++ padded 4 d.year.natAbs ++
    '-' :: padded 2 d.month ++ '-' :: padded 2 d.day

def toText (d : Date) : String := String.ofList d.chars

/-- The date of a year's four digits, a month's two and a day's two. -/
def ofFields? (negative : Bool) : List Char → Option Date
  | [y₁, y₂, y₃, y₄, '-', m₁, m₂, '-', d₁, d₂] => do
    let y ← ofDigits? [y₁, y₂, y₃, y₄]
    let m ← ofDigits? [m₁, m₂]
    let d ← ofDigits? [d₁, d₂]
    of? (if negative then -(y : Int) else y) m d
  | _ => none

/-- Reads a date; a sign may come first. -/
def ofChars? : List Char → Option Date
  | '-' :: cs => ofFields? true cs
  | '+' :: cs => ofFields? false cs
  | cs => ofFields? false cs

def ofText? (text : String) : Option Date := ofChars? text.toList

end Date

/-- What is wrong with a text that was to be a date. -/
structure DateError where
  text : String
deriving DecidableEq

def DateError.message (e : DateError) : String :=
  "invalid date '" ++ e.text ++ "' (expected YYYY-MM-DD)"

/-- Reads a date or reports the text. -/
def Date.read (text : String) : Except DateError Date :=
  match Date.ofText? text with
  | some d => .ok d
  | none => .error ⟨text⟩

end DatedRules
