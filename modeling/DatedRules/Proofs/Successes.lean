import DatedRules.Proofs.Pointwise

/-!
# Successful runs

There are no offences if and only if every outcome is a value (`offences_eq_nil_iff`). So a run is a
success if and only if every piece has a value on its first day, and its results are the pieces with
these values (`Rule.run_eq_success_iff`).

On a basis that is steady where the rule reads it, every date of the period then has a value, and
the run is a success as soon as every date has one, whatever combining functions do elsewhere
(`Rule.exists_success_iff`).
-/

namespace DatedRules

variable {τ : ValueType}

theorem record_ne_nil (rule : RuleInfo) (reason : Reason) (q : Period) (found : List Offence) :
    record rule reason q found ≠ [] := by
  cases found with
  | nil => simp [record]
  | cons o os =>
    unfold record
    split <;> simp

theorem failures_eq_nil_iff {os : List (Outcome τ)} :
    failures os = [] ↔ ∀ o ∈ os, ∃ e, o.2 = .ok e := by
  unfold failures
  rw [List.filterMap_eq_nil_iff]
  refine forall₂_congr fun o _ => ?_
  rcases o with ⟨q, f | e⟩ <;> simp

/-- There are no offences exactly where all outcomes are values. -/
theorem offences_eq_nil_iff {os : List (Outcome τ)} :
    offences os = [] ↔ ∀ o ∈ os, ∃ e, o.2 = .ok e := by
  rw [← failures_eq_nil_iff, offences_eq_foldl]
  rcases List.eq_nil_or_concat (failures os) with h | ⟨ys, y, h⟩
  · simp [h]
  · simp only [h, List.concat_eq_append, List.foldl_append, List.foldl_cons, List.foldl_nil,
      record_ne_nil, List.append_eq_nil_iff, List.cons_ne_nil, and_false]

/-- A result as the piece and what its first day has. -/
def PeriodResult.told (x : PeriodResult τ) : Period × Except Stop (Evaluated τ) :=
  (x.period, .ok x.result)

theorem PeriodResult.told_injective : Function.Injective (told (τ := τ)) := by
  rintro ⟨q, e⟩ ⟨q', e'⟩ h
  simpa [told] using h

namespace Rule

variable {G : Type} {r : Rule G τ} {g : G} {p : Period}

/-- A piece and what its first day has. -/
def firstDay (r : Rule G τ) (g : G) (q : Period) : Period × Except Stop (Evaluated τ) :=
  (q, r.evaluate g q.start)

theorem outcome_of_firstDay_eq_told {q : Period} {x : PeriodResult τ}
    (h : r.firstDay g q = x.told) : r.outcome g q = .ok (x.period, .ok x.result) := by
  obtain ⟨rfl, he⟩ := Prod.mk.inj h
  rw [outcome, he]

theorem map_told_successes {qs : List Period} {os : List (Outcome τ)}
    (h : List.Forall₂ (fun q o => r.outcome g q = .ok o) qs os)
    (hok : ∀ o ∈ os, ∃ e, o.2 = .ok e) :
    (successes os).map PeriodResult.told = qs.map (r.firstDay g) := by
  induction h with
  | nil => rfl
  | @cons q o qs os ho _ ih =>
    obtain ⟨rfl, he⟩ := outcome_eq_ok ho
    obtain ⟨e, heq⟩ := hok o (List.mem_cons_self ..)
    rw [heq] at he
    have ih' := ih fun o' ho' => hok o' (List.mem_cons_of_mem _ ho')
    obtain ⟨q, x⟩ := o
    subst heq
    rw [List.map_cons, firstDay, he, ← ih']
    rfl

theorem successes_values (results : List (PeriodResult τ)) :
    successes (results.map fun x => (x.period, .ok x.result)) = results := by
  unfold successes
  rw [List.filterMap_map]
  exact List.filterMap_some

/-- The results of a successful run are the pieces with the values of their first days. -/
theorem run_eq_success_iff {results : List (PeriodResult τ)} {stamp : Stamp} :
    r.run g p = .ok (.success results stamp) ↔
      stamp = r.stamp ∧ results.map PeriodResult.told = (r.pieces g p).map (r.firstDay g) := by
  rw [run_eq_ok_iff]
  constructor
  · rintro ⟨os, hos, hres⟩
    obtain ⟨hnil, rfl, rfl⟩ := assemble_eq_success_iff.1 hres
    exact ⟨rfl, map_told_successes (mapM_eq_ok_iff.1 hos) (offences_eq_nil_iff.1 hnil)⟩
  · rintro ⟨rfl, h⟩
    refine ⟨results.map fun x => (x.period, .ok x.result), ?_, ?_⟩
    · have hf : List.Forall₂ (· = ·) ((r.pieces g p).map (r.firstDay g))
          (results.map PeriodResult.told) := by
        rw [h, List.forall₂_eq_eq_eq]
      rw [List.forall₂_map_left_iff, List.forall₂_map_right_iff] at hf
      refine mapM_eq_ok_iff.2 ?_
      rw [List.forall₂_map_right_iff]
      exact hf.imp fun _ _ => outcome_of_firstDay_eq_told
    · refine assemble_eq_success_iff.2 ⟨offences_eq_nil_iff.2 fun o ho => ?_, ?_, rfl⟩
      · obtain ⟨x, -, rfl⟩ := List.mem_map.1 ho
        exact ⟨_, rfl⟩
      · exact successes_values results

theorem exists_success_of_isSuccess (h : (r.run g p).map (·.isSuccess) = .ok true) :
    ∃ results, r.run g p = .ok (.success results r.stamp) := by
  rcases hrun : r.run g p with o | res <;> rw [hrun] at h
  · cases h
  · obtain ⟨os, -, rfl⟩ := run_eq_ok_iff.1 hrun
    have hnil := isSuccess_assemble.1 (Except.ok.inj h)
    exact ⟨_, congrArg _ (assemble_eq_success_iff.2 ⟨hnil, rfl, rfl⟩)⟩

/-- A run is a success if and only if every date has a value, and then it holds that value. -/
theorem exists_success_iff (hs : r.SteadyOn g) :
    (∃ results, r.run g p = .ok (.success results r.stamp)) ↔
      ∀ d ∈ p, ∃ e, r.evaluate g d = .ok e := by
  constructor
  · rintro ⟨results, h⟩
    obtain ⟨os, hos, hres⟩ := run_eq_ok_iff.1 h
    refine (outcomes_account hs hos).offences_eq_nil_iff.1 ?_
    exact (assemble_eq_success_iff.1 hres).1
  · intro h
    have hpieces : ∀ q ∈ r.pieces g p, Sound (r.evaluate g q.start) := by
      intro q hq
      obtain ⟨e, he⟩ := h _ ((p.tiles_partition _).mem_iff.2 ⟨q, hq, q.start_mem⟩)
      rw [he]
      exact sound_ok e
    obtain ⟨os, hos⟩ := exists_outcomes hpieces
    have hnil := (outcomes_account hs hos).offences_eq_nil_iff.2 h
    exact ⟨_, run_eq_ok_iff.2 ⟨os, hos, assemble_eq_success_iff.2 ⟨hnil, rfl, rfl⟩⟩⟩

/-- A successful run holds, for every date of the period, the value of that date. -/
theorem on?_of_success (hs : r.SteadyOn g) {results : List (PeriodResult τ)} {stamp : Stamp}
    (h : r.run g p = .ok (.success results stamp)) {d : Date} (hd : d ∈ p) :
    ∃ e, r.evaluate g d = .ok e ∧ (RunResult.success results stamp).on? d = some e := by
  obtain ⟨os, hos, hres⟩ := run_eq_ok_iff.1 h
  have hok : (assemble r.stamp os).isSuccess = true := by
    rw [hres]
    rfl
  rw [← hres]
  exact (outcomes_account hs hos).on?_of_mem hok hd

end Rule

end DatedRules
