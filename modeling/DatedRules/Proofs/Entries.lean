import DatedRules.Proofs.Histories

/-!
# Which histories are accepted

The entries of a list are read in their order up to the first without a date
(`mapM_eq_error_iff`). So a list has an entry without a date, or it is empty, or all of its entries
have a date and one of them the earliest (`entries_cases`). In the first two cases it has no
schedule; in the third it has one if the reconciliation does not start before the earliest date
(`scheduleOf_of_isLeast`). Of two lists the one for the amounts before the deduction is looked at
first (`basis_eq_error_iff`).

Which schedule is made does not depend on the order of entries of different dates
(`scheduleOf_eq_of_reordered`): by date, the entries of both lists come in one order.
-/

namespace DatedRules

namespace Reconciliation

/-- Whether all entries have a date. -/
def Readable (entries : List AmountEntry) : Prop := ∀ e ∈ entries, ∃ b, Date.read e.since = .ok b

/-- Whether an error is that of the first entry without a date. -/
def FirstUnreadable (entries : List AmountEntry) (x : DateError) : Prop :=
  ∃ before e after, entries = before ++ e :: after ∧ Readable before ∧ Date.read e.since = .error x

/-- Whether entries are others in another order, those of one date being left in theirs. -/
structure Reordered (entries' entries : List AmountEntry) : Prop where
  perm : entries'.Perm entries
  dates : ∀ b, (entries'.filter fun e => Date.read e.since = .ok b) =
    entries.filter fun e => Date.read e.since = .ok b

variable {field description : String} {start first : Date} {entries entries' : List AmountEntry}
  {x : DateError} {dated : List (Date × Fact Decimal)}

theorem datedFacts_eq_error_iff :
    datedFacts description entries = .error x ↔ FirstUnreadable entries x := by
  simp only [datedFacts, mapM_eq_error_iff, bind_eq_error_iff, bind_eq_ok_iff, pure, Except.pure,
    Except.ok.injEq, reduceCtorEq, and_false, exists_false, or_false, FirstUnreadable, Readable]
  constructor
  · rintro ⟨before, e, after, heq, hbefore, hread⟩
    refine ⟨before, e, after, heq, fun e' he' => ?_, hread⟩
    obtain ⟨-, b, hb, -⟩ := hbefore e' he'
    exact ⟨b, hb⟩
  · rintro ⟨before, e, after, heq, hbefore, hread⟩
    refine ⟨before, e, after, heq, fun e' he' => ?_, hread⟩
    obtain ⟨b, hb⟩ := hbefore e' he'
    exact ⟨_, b, hb, rfl⟩

theorem readable_of_datedFacts (h : datedFacts description entries = .ok dated) :
    Readable entries := by
  intro e he
  obtain ⟨y, -, hread, -⟩ := exists_of_forall₂_of_mem (isFactOf_of_datedFacts h).flip he
  exact ⟨y.1, hread⟩

theorem FirstUnreadable.not_readable (h : FirstUnreadable entries x) : ¬ Readable entries := by
  obtain ⟨before, e, after, rfl, -, hread⟩ := h
  intro hall
  obtain ⟨b, hb⟩ := hall e (by simp)
  cases hread.symm.trans hb

theorem exists_datedFacts (description : String) (h : Readable entries) :
    ∃ dated, datedFacts description entries = .ok dated := by
  rcases hdated : datedFacts description entries with x | dated
  · exact absurd h (datedFacts_eq_error_iff.1 hdated).not_readable
  · exact ⟨dated, rfl⟩

theorem exists_firstUnreadable (h : ¬ Readable entries) : ∃ x, FirstUnreadable entries x := by
  rcases hdated : datedFacts "" entries with x | dated
  · exact ⟨x, datedFacts_eq_error_iff.1 hdated⟩
  · exact absurd (readable_of_datedFacts hdated) h

theorem exists_sorted (description : String) (hread : Readable entries) (hne : entries ≠ []) :
    ∃ dated first rest, datedFacts description entries = .ok dated ∧
      (dated.mergeSort fun a b => a.1 ≤ b.1) = first :: rest ∧
      IsLeast (datesOf entries) first.1 := by
  obtain ⟨dated, hdated⟩ := exists_datedFacts description hread
  have hlength := (isFactOf_of_datedFacts hdated).length_eq
  rcases hsorted : dated.mergeSort fun a b => a.1 ≤ b.1 with _ | ⟨first, rest⟩
  · have hsize := congrArg List.length hsorted
    rw [List.length_mergeSort, ← hlength] at hsize
    exact absurd (List.length_eq_zero_iff.1 hsize) hne
  · exact ⟨dated, first, rest, hdated, hsorted, isLeast_of_sorted hdated hsorted⟩

theorem entries_cases (entries : List AmountEntry) : (∃ x, FirstUnreadable entries x) ∨
    entries = [] ∨ Readable entries ∧ ∃ first, IsLeast (datesOf entries) first := by
  by_cases hread : Readable entries
  · rcases eq_or_ne entries [] with hnil | hne
    · exact .inr (.inl hnil)
    · obtain ⟨-, first, -, -, -, hfirst⟩ := exists_sorted "" hread hne
      exact .inr (.inr ⟨hread, first.1, hfirst⟩)
  · exact .inl (exists_firstUnreadable hread)

theorem scheduleOf_of_firstUnreadable (h : FirstUnreadable entries x) :
    scheduleOf field description start entries = .error (.date x) :=
  bind_eq_error_iff.2 (.inl (mapError_eq_error_iff.2 ⟨x, datedFacts_eq_error_iff.2 h, rfl⟩))

theorem scheduleOf_nil :
    scheduleOf field description start [] = .error (.emptySchedule field) := by
  have hdated : datedFacts description [] = .ok [] := rfl
  rw [scheduleOf_of_dated hdated, List.mergeSort_nil]

theorem scheduleOf_of_isLeast (hread : Readable entries)
    (hfirst : IsLeast (datesOf entries) first) :
    (start < first ∧ scheduleOf field description start entries =
        .error (.beforeFirstEntry field first start)) ∨
      first ≤ start ∧ ∃ s, scheduleOf field description start entries = .ok s := by
  obtain ⟨e, he, -⟩ := hfirst.1
  obtain ⟨dated, x, rest, hdated, hsorted, hx⟩ :=
    exists_sorted description hread (List.ne_nil_of_mem he)
  obtain rfl := Date.le_antisymm (hfirst.2 hx.1) (hx.2 hfirst.1)
  rw [scheduleOf_of_sorted hdated hsorted]
  by_cases hstart : start < x.1
  · exact .inl ⟨hstart, if_pos hstart⟩
  · exact .inr ⟨Date.not_lt.1 hstart, _, if_neg hstart⟩

theorem exists_scheduleOf_iff : (∃ s, scheduleOf field description start entries = .ok s) ↔
    Readable entries ∧ entries ≠ [] ∧ ∃ first, IsLeast (datesOf entries) first ∧ first ≤ start := by
  constructor
  · rintro ⟨s, hs⟩
    rcases entries_cases entries with ⟨x, hx⟩ | rfl | ⟨hread, first, hfirst⟩
    · cases hs.symm.trans (scheduleOf_of_firstUnreadable hx)
    · cases hs.symm.trans scheduleOf_nil
    · obtain ⟨e, he, -⟩ := hfirst.1
      refine ⟨hread, List.ne_nil_of_mem he, first, hfirst, ?_⟩
      rcases scheduleOf_of_isLeast hread hfirst with ⟨-, herr⟩ | ⟨hle, -⟩
      · cases hs.symm.trans herr
      · exact hle
  · rintro ⟨hread, -, first, hfirst, hle⟩
    rcases scheduleOf_of_isLeast hread hfirst with ⟨hlt, -⟩ | ⟨-, hs⟩
    · exact absurd hlt (Date.not_lt.2 hle)
    · exact hs

theorem scheduleOf_eq_error_iff {err : InputError} :
    scheduleOf field description start entries = .error err ↔
      (∃ x, FirstUnreadable entries x ∧ err = .date x) ∨
      (entries = [] ∧ err = .emptySchedule field) ∨
      Readable entries ∧ ∃ first, IsLeast (datesOf entries) first ∧ start < first ∧
        err = .beforeFirstEntry field first start := by
  constructor
  · intro h
    rcases entries_cases entries with ⟨x, hx⟩ | rfl | ⟨hread, first, hfirst⟩
    · rw [scheduleOf_of_firstUnreadable hx, Except.error.injEq] at h
      exact .inl ⟨x, hx, h.symm⟩
    · rw [scheduleOf_nil, Except.error.injEq] at h
      exact .inr (.inl ⟨rfl, h.symm⟩)
    · rcases scheduleOf_of_isLeast hread hfirst with ⟨hlt, herr⟩ | ⟨-, s, hs⟩
      · rw [herr, Except.error.injEq] at h
        exact .inr (.inr ⟨hread, first, hfirst, hlt, h.symm⟩)
      · cases h.symm.trans hs
  · rintro (⟨x, hx, rfl⟩ | ⟨rfl, rfl⟩ | ⟨hread, first, hfirst, hlt, rfl⟩)
    · exact scheduleOf_of_firstUnreadable hx
    · exact scheduleOf_nil
    · rcases scheduleOf_of_isLeast hread hfirst with ⟨-, herr⟩ | ⟨hle, -⟩
      · exact herr
      · exact absurd hlt (Date.not_lt.2 hle)

theorem filter_of_dated (h : List.Forall₂ (IsFactOf description) entries dated) (b : Date) :
    (dated.filter fun y => y.1 = b) = (entries.filter fun e => Date.read e.since = .ok b).map
      fun e => (b, ⟨e.amount, e.source, description⟩) := by
  induction h with
  | nil => rfl
  | @cons e y entries dated hy _ ih =>
    obtain ⟨c, fact⟩ := y
    obtain ⟨hread, rfl⟩ := hy
    rw [List.filter_cons, List.filter_cons, ih, hread]
    by_cases hb : c = b <;> simp [hb]

theorem Reordered.readable_iff (h : Reordered entries' entries) :
    Readable entries' ↔ Readable entries :=
  forall_congr' fun _ => imp_congr_left h.perm.mem_iff

theorem scheduleOf_eq_of_reordered (h : Reordered entries' entries) (hread : Readable entries) :
    scheduleOf field description start entries' = scheduleOf field description start entries := by
  obtain ⟨dated, hdated⟩ := exists_datedFacts description hread
  obtain ⟨dated', hdated'⟩ := exists_datedFacts description (h.readable_iff.2 hread)
  have hfilter (b : Date) :
      (dated'.filter fun y => y.1 = b) = dated.filter fun y => y.1 = b := by
    rw [filter_of_dated (isFactOf_of_datedFacts hdated'), h.dates b,
      filter_of_dated (isFactOf_of_datedFacts hdated)]
  rw [scheduleOf_of_dated hdated, scheduleOf_of_dated hdated', mergeSort_eq_of_filter_eq hfilter]

/-- Put in another order, entries end the same, or both ways at a date that cannot be read. -/
theorem scheduleOf_of_reordered (h : Reordered entries' entries) :
    scheduleOf field description start entries' = scheduleOf field description start entries ∨
      ∃ x x', scheduleOf field description start entries = .error (.date x) ∧
        scheduleOf field description start entries' = .error (.date x') := by
  by_cases hread : Readable entries
  · exact .inl (scheduleOf_eq_of_reordered h hread)
  · obtain ⟨x, hx⟩ := exists_firstUnreadable hread
    obtain ⟨x', hx'⟩ := exists_firstUnreadable (mt h.readable_iff.1 hread)
    exact .inr ⟨x, x', scheduleOf_of_firstUnreadable hx, scheduleOf_of_firstUnreadable hx'⟩

theorem basis_eq_error_iff {file : InputFile} {err : InputError} :
    file.basis start = .error err ↔
      scheduleOf "brutto" "Ytelse før avkorting" start file.gross = .error err ∨
      (∃ s, scheduleOf "brutto" "Ytelse før avkorting" start file.gross = .ok s) ∧
        scheduleOf "utbetalt" "Utbetalt ytelse" start file.paid = .error err := by
  simp only [InputFile.basis, bind_eq_error_iff, pure, Except.pure, reduceCtorEq, and_false,
    exists_false, or_false, exists_and_right]

/-- A list of entries has a schedule exactly if all entries have a date, there are some, and the
earliest date is not after the start; else the first entry without a date is reported, then that
there are none, then the earliest date. The breakpoints are the dates of the entries, and a day from
the earliest on has what the last entry with the latest date up to then says. The order of entries
of different dates plays no part, except in which unreadable date comes first. Of the two lists of a
file the one for the amounts before the deduction is looked at first. -/
theorem scheduleOf_determined (field description : String) (start : Date)
    (entries : List AmountEntry) :
    ((∃ s, scheduleOf field description start entries = .ok s) ↔
      Readable entries ∧ entries ≠ [] ∧
        ∃ first, IsLeast (datesOf entries) first ∧ first ≤ start) ∧
    (∀ err, scheduleOf field description start entries = .error err ↔
      (∃ x, FirstUnreadable entries x ∧ err = .date x) ∨
      (entries = [] ∧ err = .emptySchedule field) ∨
      Readable entries ∧ ∃ first, IsLeast (datesOf entries) first ∧ start < first ∧
        err = .beforeFirstEntry field first start) ∧
    (∀ s, scheduleOf field description start entries = .ok s →
      (∀ b, b ∈ s.breakpoints ↔ b ∈ datesOf entries) ∧
      ∀ d, (∃ b ∈ datesOf entries, b ≤ d) →
        ∃ e, StandsOn entries d e ∧ s.on d = ⟨e.amount, e.source, description⟩) ∧
    (∀ entries', Reordered entries' entries →
      scheduleOf field description start entries' = scheduleOf field description start entries ∨
      ∃ x x', scheduleOf field description start entries = .error (.date x) ∧
        scheduleOf field description start entries' = .error (.date x')) ∧
    ∀ text err, Basis.ofText text start = .error err ↔
      (∃ fault, InputFile.ofText text = .error fault ∧ err = .json fault) ∨
      ∃ file, InputFile.ofText text = .ok file ∧
        (scheduleOf "brutto" "Ytelse før avkorting" start file.gross = .error err ∨
        (∃ s, scheduleOf "brutto" "Ytelse før avkorting" start file.gross = .ok s) ∧
          scheduleOf "utbetalt" "Utbetalt ytelse" start file.paid = .error err) := by
  refine ⟨exists_scheduleOf_iff, fun err => scheduleOf_eq_error_iff, fun s hs =>
    ⟨fun b => mem_breakpoints_scheduleOf hs, fun d hd => exists_standsOn hs hd⟩,
    fun entries' h => scheduleOf_of_reordered h, fun text err => ?_⟩
  simp only [Basis.ofText, bind_eq_error_iff, mapError_eq_error_iff, mapError_eq_ok_iff,
    basis_eq_error_iff]

end Reconciliation

end DatedRules
