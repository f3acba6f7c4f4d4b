import DatedRules.Proofs.Sequences
import DatedRules.Schedule
import Mathlib.Data.List.Induction
import Mathlib.Data.List.Sort

/-!
# What a schedule remembers

A schedule made by several changes holds, for each date that was changed, the change made last
(`Schedule.mem_changes_withChanges`), and on a date the one of the latest changed date up to then is
in force (`Schedule.on_spec`). So a history of changes makes a schedule that depends on the last
changes for each date only (`Schedule.ofHistory_determined`).

Which change is the last for its date depends only on the order of the changes that have that date
(`LastWrite`), which a stable sort leaves alone (`lastWrite_mergeSort`); and two lists that differ
only in the order of changes of different dates are the same once they are sorted
(`mergeSort_eq_of_filter_eq`).
-/

namespace DatedRules

/-- Whether a change is the last in a list for its date. -/
def LastWrite {α : Type} (cs : List (Date × α)) (x : Date × α) : Prop :=
  (cs.filter fun c => c.1 = x.1).getLast? = some x

section LastWrite

variable {α : Type} {cs : List (Date × α)} {x : Date × α}

theorem lastWrite_append_singleton {c : Date × α} :
    LastWrite (cs ++ [c]) x ↔ x = c ∨ LastWrite cs x ∧ x.1 ≠ c.1 := by
  unfold LastWrite
  rw [List.filter_append]
  by_cases h : c.1 = x.1
  · simp [h, eq_comm]
  · have hne : x ≠ c := fun hx => h (congrArg Prod.fst hx).symm
    simp [h, hne, Ne.symm h]

theorem LastWrite.mem (h : LastWrite cs x) : x ∈ cs :=
  (List.mem_filter.1 (List.mem_of_getLast? h)).1

theorem exists_lastWrite (h : x ∈ cs) : ∃ y, LastWrite cs y ∧ y.1 = x.1 := by
  obtain ⟨y, hy⟩ : ∃ y, (cs.filter fun c => c.1 = x.1).getLast? = some y := by
    rw [← Option.isSome_iff_exists, ← Option.ne_none_iff_isSome, Ne, List.getLast?_eq_none_iff,
      List.filter_eq_nil_iff]
    exact fun hnone => hnone x h (by simp)
  have hdate : y.1 = x.1 := by simpa using (List.mem_filter.1 (List.mem_of_getLast? hy)).2
  exact ⟨y, by rwa [LastWrite, hdate], hdate⟩

/-- Nothing after the last change for a date has that date. -/
theorem LastWrite.exists_append (h : LastWrite cs x) :
    ∃ us vs, cs = us ++ x :: vs ∧ ∀ v ∈ vs, v.1 ≠ x.1 := by
  induction cs using List.reverseRecOn with
  | nil => simp [LastWrite] at h
  | append_singleton cs c ih =>
    rcases lastWrite_append_singleton.1 h with rfl | ⟨h, hne⟩
    · exact ⟨cs, [], rfl, by simp⟩
    · obtain ⟨us, vs, rfl, hvs⟩ := ih h
      refine ⟨us, vs ++ [c], by simp, fun v hv => ?_⟩
      rcases List.mem_append.1 hv with hv | hv
      · exact hvs v hv
      · rw [List.mem_singleton.1 hv]
        exact hne.symm

/-- Sorting by date leaves changes of one date in their order, as a stable sort keeps what is in
order already. -/
theorem filter_mergeSort (d : Date) (cs : List (Date × α)) :
    (cs.mergeSort fun a b => a.1 ≤ b.1).filter (fun c => c.1 = d) = cs.filter fun c => c.1 = d := by
  have hsub : (cs.filter fun c => c.1 = d).Sublist (cs.mergeSort fun a b => a.1 ≤ b.1) := by
    refine List.sublist_mergeSort ?_ ?_ ?_ List.filter_sublist
    · simpa using fun a _ b _ c _ => @Date.le_trans a b c
    · simpa using fun a _ b _ => Date.le_total a b
    · refine List.pairwise_of_forall_mem_list fun a ha b hb => ?_
      have ha' : a.1 = d := by simpa using (List.mem_filter.1 ha).2
      have hb' : b.1 = d := by simpa using (List.mem_filter.1 hb).2
      simp [ha', hb', Date.le_refl]
  have hsub' := hsub.filter fun c => c.1 = d
  rw [List.filter_filter] at hsub'
  simp only [Bool.and_self] at hsub'
  exact (hsub'.eq_of_length
    ((List.mergeSort_perm cs _).filter _).length_eq.symm).symm

/-- Ordered lists are known by their changes of each date. -/
theorem eq_of_filter_eq : ∀ {xs ys : List (Date × α)}, xs.Pairwise (fun a b => a.1 ≤ b.1) →
    ys.Pairwise (fun a b => a.1 ≤ b.1) →
      (∀ d, xs.filter (fun c => c.1 = d) = ys.filter fun c => c.1 = d) → xs = ys
  | [], [], _, _, _ => rfl
  | [], y :: ys, _, _, h => by simpa using h y.1
  | x :: xs, [], _, _, h => by simpa using h x.1
  | x :: xs, y :: ys, hx, hy, h => by
    have hmem : ∀ c, c ∈ x :: xs ↔ c ∈ y :: ys := fun c => by
      simpa using congrArg (c ∈ ·) (h c.1)
    rw [List.pairwise_cons] at hx hy
    have hdate : x.1 = y.1 := by
      rcases List.mem_cons.1 ((hmem x).1 (List.mem_cons_self ..)) with rfl | hx'
      · rfl
      rcases List.mem_cons.1 ((hmem y).2 (List.mem_cons_self ..)) with rfl | hy'
      · rfl
      exact Date.le_antisymm (hx.1 y hy') (hy.1 x hx')
    have hhead := h x.1
    simp only [List.filter_cons, decide_true, if_true, hdate, List.cons.injEq] at hhead
    obtain ⟨rfl, -⟩ := hhead
    congr 1
    refine eq_of_filter_eq hx.2 hy.2 fun d => ?_
    have hd := h d
    by_cases hxd : x.1 = d <;> simpa [hxd] using hd

theorem mergeSort_eq_of_filter_eq {xs ys : List (Date × α)}
    (h : ∀ d, xs.filter (fun c => c.1 = d) = ys.filter fun c => c.1 = d) :
    (xs.mergeSort fun a b => a.1 ≤ b.1) = ys.mergeSort fun a b => a.1 ≤ b.1 := by
  refine eq_of_filter_eq (Date.pairwise_mergeSort _ _) (Date.pairwise_mergeSort _ _) fun d => ?_
  rw [filter_mergeSort, filter_mergeSort, h d]

theorem lastWrite_mergeSort :
    LastWrite (cs.mergeSort fun a b => a.1 ≤ b.1) x ↔ LastWrite cs x := by
  rw [LastWrite, filter_mergeSort, LastWrite]

end LastWrite

namespace Schedule

variable {α : Type} {s : Schedule α} {d : Date} {a : α} {x : Date × α}

theorem mem_setIn_iff : ∀ {cs : List (Date × α)}, cs.Pairwise (·.1 < ·.1) →
    (x ∈ setIn d a cs ↔ x = (d, a) ∨ x ∈ cs ∧ x.1 ≠ d)
  | [], _ => by simp [setIn]
  | c :: cs, h => by
    rw [List.pairwise_cons] at h
    have ih := mem_setIn_iff h.2
    unfold setIn
    split
    · rename_i hlt
      have hne : ∀ y ∈ c :: cs, y.1 ≠ d := by
        intro y hy heq
        subst heq
        rcases List.mem_cons.1 hy with rfl | hy
        · exact Date.lt_irrefl _ hlt
        · exact Date.lt_irrefl _ (Date.lt_trans hlt (h.1 y hy))
      exact List.mem_cons.trans (or_congr_right (iff_self_and.2 (hne x)))
    · split
      · rename_i heq
        subst heq
        have hne : ∀ y ∈ cs, y.1 ≠ c.1 := fun y hy hy' => Date.lt_irrefl _ (hy' ▸ h.1 y hy)
        rw [List.mem_cons, List.mem_cons]
        refine or_congr_right ⟨fun hx => ⟨.inr hx, hne x hx⟩, fun hx => hx.1.resolve_left ?_⟩
        rintro rfl
        exact hx.2 rfl
      · rename_i hne
        have hc : x = c → x.1 ≠ d := by
          rintro rfl
          exact Ne.symm hne
        rw [List.mem_cons, List.mem_cons, ih]
        tauto

theorem mem_changes_withChange :
    x ∈ (s.withChange d a).changes ↔ x = (d, a) ∨ x ∈ s.changes ∧ x.1 ≠ d :=
  mem_setIn_iff s.ascending

/-- Of several changes those remain that are the last for their date, and of the changes before
those for other dates. -/
theorem mem_changes_withChanges {cs : List (Date × α)} : x ∈ (s.withChanges cs).changes ↔
    LastWrite cs x ∨ x ∈ s.changes ∧ ∀ c ∈ cs, x.1 ≠ c.1 := by
  induction cs using List.reverseRecOn with
  | nil => simp [withChanges, LastWrite]
  | append_singleton cs c ih =>
    have hlast : s.withChanges (cs ++ [c]) = (s.withChanges cs).withChange c.1 c.2 := by
      rw [withChanges, List.foldl_append]
      rfl
    rw [hlast, mem_changes_withChange, ih, lastWrite_append_singleton]
    simp only [List.mem_append, List.mem_singleton, or_imp, forall_and, forall_eq]
    tauto

theorem mem_breakpoints {b : Date} : b ∈ s.breakpoints ↔ ∃ c ∈ s.changes, c.1 = b :=
  List.mem_map

theorem takeWhile_eq_filter {cs : List (Date × α)} (h : cs.Pairwise (·.1 < ·.1)) :
    (cs.takeWhile fun c => c.1 ≤ d) = cs.filter fun c => c.1 ≤ d := by
  refine takeWhile_eq_filter_of_pairwise (fun x y hxy hy => ?_) h
  exact decide_eq_true (Date.le_trans (Date.le_of_lt hxy) (of_decide_eq_true hy))

/-- On a date the latest change up to then is in force, or else the initial value. -/
theorem on_spec (s : Schedule α) (d : Date) :
    (∃ x ∈ s.changes, x.1 ≤ d ∧ (∀ c ∈ s.changes, c.1 ≤ d → c.1 ≤ x.1) ∧ s.on d = x.2) ∨
      (∀ c ∈ s.changes, d < c.1) ∧ s.on d = s.initial := by
  rw [on, takeWhile_eq_filter s.ascending]
  split
  case h_1 x hlast =>
    have hx := List.mem_filter.1 (List.mem_of_getLast? hlast)
    refine .inl ⟨x, hx.1, by simpa using hx.2, fun c hc hle => ?_, rfl⟩
    obtain ⟨ys, hys⟩ := List.getLast?_eq_some_iff.1 hlast
    have hasc := s.ascending.filter fun c => c.1 ≤ d
    have hmem : c ∈ s.changes.filter fun c => c.1 ≤ d := List.mem_filter.2 ⟨hc, by simpa using hle⟩
    rw [hys] at hasc hmem
    rcases List.mem_append.1 hmem with hc' | hc'
    · exact Date.le_of_lt ((List.pairwise_append.1 hasc).2.2 c hc' x (List.mem_singleton_self x))
    · rw [List.mem_singleton.1 hc']
      exact Date.le_refl _
  case h_2 hlast =>
    have hnone := List.filter_eq_nil_iff.1 (List.getLast?_eq_none_iff.1 hlast)
    exact .inr ⟨fun c hc => Date.not_le.1 (by simpa using hnone c hc), rfl⟩

theorem ext_changes {t : Schedule α} (hi : s.initial = t.initial)
    (hc : ∀ x, x ∈ s.changes ↔ x ∈ t.changes) : s = t := by
  have hirrefl : Std.Irrefl fun a b : Date × α => a.1 < b.1 := ⟨fun a => Date.lt_irrefl a.1⟩
  have hasymm : Std.Antisymm fun a b : Date × α => a.1 < b.1 :=
    ⟨fun a b hab hba => absurd (Date.lt_trans hab hba) (Date.lt_irrefl a.1)⟩
  have heq := s.ascending.eq_of_mem_iff t.ascending hc
  cases s
  cases t
  simp_all

/-- The schedule that a history of changes makes of an initial value. -/
def ofHistory (initial : α) (cs : List (Date × α)) : Schedule α := (constant initial).withChanges cs

section History

variable {initial : α} {cs cs' : List (Date × α)}

theorem initial_ofHistory : (ofHistory initial cs).initial = initial := by
  induction cs using List.reverseRecOn with
  | nil => rfl
  | append_singleton cs c ih =>
    rw [ofHistory, withChanges, List.foldl_append]
    exact ih

theorem mem_changes_ofHistory : x ∈ (ofHistory initial cs).changes ↔ LastWrite cs x := by
  rw [ofHistory, mem_changes_withChanges]
  simp [constant]

theorem mem_breakpoints_ofHistory {b : Date} :
    b ∈ (ofHistory initial cs).breakpoints ↔ ∃ c ∈ cs, c.1 = b := by
  simp only [mem_breakpoints, mem_changes_ofHistory]
  constructor
  · rintro ⟨c, hc, rfl⟩
    exact ⟨c, hc.mem, rfl⟩
  · rintro ⟨c, hc, rfl⟩
    obtain ⟨x, hx, hxc⟩ := exists_lastWrite hc
    exact ⟨x, hx, hxc⟩

theorem on_ofHistory (initial : α) (cs : List (Date × α)) (d : Date) :
    (∃ x, LastWrite cs x ∧ x.1 ≤ d ∧ (∀ c ∈ cs, c.1 ≤ d → c.1 ≤ x.1) ∧
        (ofHistory initial cs).on d = x.2) ∨
      (∀ c ∈ cs, d < c.1) ∧ (ofHistory initial cs).on d = initial := by
  have hchanged : ∀ c ∈ cs, ∃ y ∈ (ofHistory initial cs).changes, y.1 = c.1 := fun c hc =>
    mem_breakpoints.1 (mem_breakpoints_ofHistory.2 ⟨c, hc, rfl⟩)
  rcases on_spec (ofHistory initial cs) d with ⟨x, hx, hle, hlatest, hon⟩ | ⟨hnone, hon⟩
  · refine .inl ⟨x, mem_changes_ofHistory.1 hx, hle, fun c hc hcd => ?_, hon⟩
    obtain ⟨y, hy, hyc⟩ := hchanged c hc
    rw [← hyc] at hcd ⊢
    exact hlatest y hy hcd
  · refine .inr ⟨fun c hc => ?_, hon.trans initial_ofHistory⟩
    obtain ⟨y, hy, hyc⟩ := hchanged c hc
    exact hyc ▸ hnone y hy

theorem ofHistory_eq_iff :
    ofHistory initial cs' = ofHistory initial cs ↔ ∀ x, LastWrite cs' x ↔ LastWrite cs x := by
  constructor
  · intro h x
    have hmem : x ∈ (ofHistory initial cs').changes ↔ LastWrite cs' x := mem_changes_ofHistory
    rw [← hmem, h, mem_changes_ofHistory]
  · intro h
    refine ext_changes (initial_ofHistory.trans initial_ofHistory.symm) fun x => ?_
    rw [mem_changes_ofHistory, mem_changes_ofHistory, h x]

/-- A history of changes, made in any order of their dates, has on every date the value of the last
change for the latest changed date up to then. It is known by its initial value and the last changes
for each date, which it lists in the order of their dates, and it is the same on two dates that no
changed date separates. -/
theorem ofHistory_determined (initial : α) (cs : List (Date × α)) :
    (∀ d, (∃ x, LastWrite cs x ∧ x.1 ≤ d ∧ (∀ c ∈ cs, c.1 ≤ d → c.1 ≤ x.1) ∧
          (ofHistory initial cs).on d = x.2) ∨
        (∀ c ∈ cs, d < c.1) ∧ (ofHistory initial cs).on d = initial) ∧
    ((ofHistory initial cs).changes.Pairwise (·.1 < ·.1) ∧
      ∀ x, x ∈ (ofHistory initial cs).changes ↔ LastWrite cs x) ∧
    (∀ b, b ∈ (ofHistory initial cs).breakpoints ↔ ∃ c ∈ cs, c.1 = b) ∧
    (∀ cs', ofHistory initial cs' = ofHistory initial cs ↔
      ∀ x, LastWrite cs' x ↔ LastWrite cs x) ∧
    ∀ d₁ d₂, d₁ ≤ d₂ → (∀ b ∈ (ofHistory initial cs).breakpoints, ¬ (d₁ < b ∧ b ≤ d₂)) →
      (ofHistory initial cs).on d₁ = (ofHistory initial cs).on d₂ :=
  ⟨on_ofHistory initial cs, ⟨(ofHistory initial cs).ascending, fun _ => mem_changes_ofHistory⟩,
    fun _ => mem_breakpoints_ofHistory, fun _ => ofHistory_eq_iff,
    (ofHistory initial cs).steady_varying⟩

end History

end Schedule

end DatedRules
