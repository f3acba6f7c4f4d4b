import DatedRules.Proofs.Outcomes
import DatedRules.Proofs.Schedules
import DatedRules.Reconciliation.InputFile
import Mathlib.Order.Bounds.Defs

/-!
# Histories on record

The schedule that is made of a list of entries is the one that they make in the order of their dates
(`scheduleOf_of_sorted`), so it holds, for every date that an entry has, the last entry of the list
with that date (`scheduleOf_eq_ok`). On a day it says what one entry of the list says, the last of
those with the latest date up to then (`exists_standsOn`); if the day is the first of a period that
no change is inside of, that entry stays in force throughout the period (`exists_inForce`).
-/

namespace DatedRules

namespace Reconciliation

/-- The dates that entries have. -/
def datesOf (entries : List AmountEntry) : Set Date :=
  {b | ∃ e ∈ entries, Date.read e.since = .ok b}

/-- Whether an entry is the last of those with the latest date up to a day. -/
def StandsOn (entries : List AmountEntry) (d : Date) (e : AmountEntry) : Prop :=
  ∃ before after b, entries = before ++ e :: after ∧ Date.read e.since = .ok b ∧
    IsGreatest {c ∈ datesOf entries | c ≤ d} b ∧ ∀ e' ∈ after, Date.read e'.since ≠ .ok b

/-- Whether an entry that stands between others in a list is in force throughout a period: its date
is not after the first day, no other entry has a later date up to then, none after it has the same
date, and none has a date inside the period. -/
structure InForce (before : List AmountEntry) (e : AmountEntry) (after : List AmountEntry)
    (b : Date) (q : Period) : Prop where
  read : Date.read e.since = .ok b
  le : b ≤ q.start
  latest : ∀ e' ∈ before ++ after, ∃ b', Date.read e'.since = .ok b' ∧ (b' ≤ q.start → b' ≤ b) ∧
    ¬ Period.Inside b' q
  last : ∀ e' ∈ after, Date.read e'.since ≠ .ok b

variable {field description : String} {start : Date} {entries : List AmountEntry}
  {s : Schedule (Fact Decimal)}

/-- Whether a dated fact is that of an entry. -/
def IsFactOf (description : String) (e : AmountEntry) (x : Date × Fact Decimal) : Prop :=
  Date.read e.since = .ok x.1 ∧ x.2 = ⟨e.amount, e.source, description⟩

theorem isFactOf_of_datedFacts {dated : List (Date × Fact Decimal)}
    (h : datedFacts description entries = .ok dated) :
    List.Forall₂ (IsFactOf description) entries dated := by
  refine (mapM_eq_ok_iff.1 h).imp fun e x hx => ?_
  obtain ⟨b, hb, hx⟩ := bind_eq_ok_iff.1 hx
  cases hx
  exact ⟨hb, rfl⟩

section Dated

variable {dated : List (Date × Fact Decimal)} {first : Date × Fact Decimal}
  {rest : List (Date × Fact Decimal)}

theorem mem_datesOf_iff (h : datedFacts description entries = .ok dated) {b : Date} :
    b ∈ datesOf entries ↔ ∃ x ∈ dated, x.1 = b := by
  have hall := isFactOf_of_datedFacts h
  constructor
  · rintro ⟨e, he, hread⟩
    obtain ⟨x, hx, hread', -⟩ := exists_of_forall₂_of_mem hall.flip he
    exact ⟨x, hx, Except.ok.inj (hread'.symm.trans hread)⟩
  · rintro ⟨x, hx, rfl⟩
    obtain ⟨e, he, hread, -⟩ := exists_of_forall₂_of_mem hall hx
    exact ⟨e, he, hread⟩

/-- What comes first in the order of the dates has the earliest of them. -/
theorem isLeast_of_sorted (hdated : datedFacts description entries = .ok dated)
    (hsorted : (dated.mergeSort fun a b => a.1 ≤ b.1) = first :: rest) :
    IsLeast (datesOf entries) first.1 := by
  have hmem : ∀ x, x ∈ dated ↔ x ∈ first :: rest := fun x => by
    rw [← hsorted, List.mem_mergeSort]
  have hpair := Date.pairwise_mergeSort Prod.fst dated
  rw [hsorted, List.pairwise_cons] at hpair
  refine ⟨(mem_datesOf_iff hdated).2 ⟨first, (hmem first).2 (List.mem_cons_self ..), rfl⟩,
    fun b hb => ?_⟩
  obtain ⟨x, hx, rfl⟩ := (mem_datesOf_iff hdated).1 hb
  rcases List.mem_cons.1 ((hmem x).1 hx) with rfl | hx
  · exact Date.le_refl _
  · exact hpair.1 x hx

theorem scheduleOf_of_dated (hdated : datedFacts description entries = .ok dated) :
    scheduleOf field description start entries =
      match dated.mergeSort fun a b => a.1 ≤ b.1 with
      | [] => .error (.emptySchedule field)
      | first :: rest =>
        if start < first.1 then .error (.beforeFirstEntry field first.1 start)
        else .ok (.ofHistory first.2 (first :: rest)) := by
  rw [scheduleOf, hdated]
  rfl

theorem scheduleOf_of_sorted (hdated : datedFacts description entries = .ok dated)
    (hsorted : (dated.mergeSort fun a b => a.1 ≤ b.1) = first :: rest) :
    scheduleOf field description start entries =
      if start < first.1 then .error (.beforeFirstEntry field first.1 start)
      else .ok (.ofHistory first.2 (first :: rest)) := by
  rw [scheduleOf_of_dated hdated, hsorted]

theorem scheduleOf_eq_of_sorted (hdated : datedFacts description entries = .ok dated)
    (hsorted : (dated.mergeSort fun a b => a.1 ≤ b.1) = first :: rest) (hstart : first.1 ≤ start) :
    scheduleOf field description start entries =
      .ok ((Schedule.constant first.2).withChanges (first :: rest)) := by
  rw [scheduleOf_of_sorted hdated hsorted, if_neg (Date.not_lt.2 hstart), Schedule.ofHistory]

end Dated

/-- The changes of a history are the last entries of each date, and one is not after the start. -/
theorem scheduleOf_eq_ok (h : scheduleOf field description start entries = .ok s) :
    ∃ dated, datedFacts description entries = .ok dated ∧ (∃ b ∈ datesOf entries, b ≤ start) ∧
      ∀ x, x ∈ s.changes ↔ LastWrite dated x := by
  obtain ⟨dated, hdated, -⟩ := bind_eq_ok_iff.1 h
  rw [mapError_eq_ok_iff] at hdated
  rw [scheduleOf_of_dated hdated] at h
  refine ⟨dated, hdated, ?_⟩
  rcases hsorted : dated.mergeSort fun a b => a.1 ≤ b.1 with _ | ⟨first, rest⟩ <;>
    simp only [hsorted] at h
  · cases h
  · split at h
    · cases h
    · rename_i hstart
      cases h
      refine ⟨⟨first.1, (isLeast_of_sorted hdated hsorted).1, Date.not_lt.1 hstart⟩, fun x => ?_⟩
      rw [Schedule.mem_changes_ofHistory, ← hsorted, lastWrite_mergeSort]

theorem mem_breakpoints_scheduleOf (h : scheduleOf field description start entries = .ok s)
    {b : Date} : b ∈ s.breakpoints ↔ b ∈ datesOf entries := by
  obtain ⟨dated, hdated, -, hchanges⟩ := scheduleOf_eq_ok h
  rw [mem_datesOf_iff hdated, Schedule.mem_breakpoints]
  constructor
  · rintro ⟨c, hc, rfl⟩
    exact ⟨c, ((hchanges c).1 hc).mem, rfl⟩
  · rintro ⟨x, hx, rfl⟩
    obtain ⟨c, hc, hcx⟩ := exists_lastWrite hx
    exact ⟨c, (hchanges c).2 hc, hcx⟩

/-- What a history says of a day not before its first entry is what one of its entries says. -/
theorem exists_standsOn (h : scheduleOf field description start entries = .ok s) {d : Date}
    (hd : ∃ b ∈ datesOf entries, b ≤ d) :
    ∃ e, StandsOn entries d e ∧ s.on d = ⟨e.amount, e.source, description⟩ := by
  have hdates : ∀ b ∈ datesOf entries, ∃ c ∈ s.changes, c.1 = b := fun b hb =>
    Schedule.mem_breakpoints.1 ((mem_breakpoints_scheduleOf h).2 hb)
  obtain ⟨dated, hdated, -, hchanges⟩ := scheduleOf_eq_ok h
  rcases s.on_spec d with ⟨x, hx, hle, hlatest, hon⟩ | ⟨hnone, -⟩
  · obtain ⟨us, vs, rfl, hvs⟩ := ((hchanges x).1 hx).exists_append
    obtain ⟨before, e, after, rfl, ⟨hread, hfact⟩, hafter⟩ :=
      exists_append_of_forall₂ (isFactOf_of_datedFacts hdated)
    refine ⟨e, ⟨before, after, x.1, rfl, hread, ⟨⟨⟨e, by simp, hread⟩, hle⟩, ?_⟩, ?_⟩,
      hon.trans hfact⟩
    · rintro b ⟨hb, hbd⟩
      obtain ⟨c, hc, rfl⟩ := hdates b hb
      exact hlatest c hc hbd
    · intro e' he' heq
      obtain ⟨v, hv, hread', -⟩ := exists_of_forall₂_of_mem hafter.flip he'
      rw [hread', Except.ok.injEq] at heq
      exact hvs v hv heq
  · obtain ⟨b, hb, hbd⟩ := hd
    obtain ⟨c, hc, rfl⟩ := hdates b hb
    exact absurd (hnone c hc) (Date.not_lt.2 hbd)

/-- What a history says of the first day of a period without changes inside is what the entry says
that is in force throughout. -/
theorem exists_inForce (h : scheduleOf field description start entries = .ok s) {q : Period}
    (hstart : start ≤ q.start) (hq : ∀ b ∈ s.breakpoints, ¬ Period.Inside b q) :
    ∃ before e after b, entries = before ++ e :: after ∧ InForce before e after b q ∧
      s.on q.start = ⟨e.amount, e.source, description⟩ := by
  obtain ⟨dated, hdated, ⟨b₀, hb₀, hb₀le⟩, -⟩ := scheduleOf_eq_ok h
  obtain ⟨e, ⟨before, after, b, rfl, hread, hgreatest, hlast⟩, hon⟩ :=
    exists_standsOn h ⟨b₀, hb₀, Date.le_trans hb₀le hstart⟩
  refine ⟨before, e, after, b, rfl, ⟨hread, hgreatest.1.2, fun e' he' => ?_, hlast⟩, hon⟩
  have hmem : e' ∈ before ++ e :: after := by
    simp only [List.mem_append, List.mem_cons] at he' ⊢
    tauto
  obtain ⟨x, -, hread', -⟩ :=
    exists_of_forall₂_of_mem (isFactOf_of_datedFacts hdated).flip hmem
  have hx : x.1 ∈ datesOf (before ++ e :: after) := ⟨e', hmem, hread'⟩
  exact ⟨x.1, hread', fun hle => hgreatest.2 ⟨hx, hle⟩,
    hq x.1 ((mem_breakpoints_scheduleOf h).2 hx)⟩

end Reconciliation

end DatedRules
