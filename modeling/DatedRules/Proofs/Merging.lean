import DatedRules.Proofs.Successes

/-!
# Findings of runs that follow one another

The entries of one run are added to those of another one by one (`merge`): the pieces of an entry go
to the entry of the same rule and reason, and an entry that has no such other comes last. The
offences of two lists of outcomes, one after the other, are those of the first with those of the
second added (`offences_append`): of an entry's pieces it makes no difference whether they are
recorded one at a time or together (`absorb_absorb`), nor in which turn pieces of different entries
are, once both entries are there (`absorb_comm`).

So the outcomes of several runs put together are their results one after the other, if all are
successes, and otherwise their findings added up (`assemble_flatten`).
-/

namespace DatedRules

/-- Adds an entry to findings: its pieces to those of the same rule and reason, or itself as the
last one. -/
def absorb : List Offence → Offence → List Offence
  | [], o => [o]
  | a :: found, o =>
    if a.key = o.key then { o with periods := a.periods ++ o.periods } :: found
    else a :: absorb found o

/-- Adds entries to findings, one after the other. -/
def merge (found entries : List Offence) : List Offence := entries.foldl absorb found

theorem merge_cons (a : Offence) (found entries : List Offence) :
    merge found (a :: entries) = merge (absorb found a) entries := rfl

theorem merge_concat (o : Offence) (found entries : List Offence) :
    merge found (entries ++ [o]) = absorb (merge found entries) o := by
  simp [merge]

/-- The entry of a single failure. -/
def Offence.single (x : (RuleInfo × Reason) × Period) : Offence := ⟨x.1.1, x.1.2, [x.2]⟩

theorem record_eq_absorb (k : RuleInfo × Reason) (q : Period) : ∀ found : List Offence,
    record k.1 k.2 q found = absorb found (.single (k, q))
  | [] => rfl
  | o :: found => by
    have hk : (o.rule = k.1 ∧ o.reason = k.2) ↔ o.key = (Offence.single (k, q)).key := by
      simp [Offence.key, Offence.single, Prod.ext_iff]
    unfold record absorb
    simp only [hk, record_eq_absorb k q found]
    rfl

theorem map_key_absorb (o : Offence) : ∀ found : List Offence,
    (absorb found o).map Offence.key =
      if o.key ∈ found.map Offence.key then found.map Offence.key
      else found.map Offence.key ++ [o.key]
  | [] => by simp [absorb]
  | a :: found => by
    unfold absorb
    by_cases h : a.key = o.key
    · have ho : (⟨o.rule, o.reason, a.periods ++ o.periods⟩ : Offence).key = o.key := rfl
      simp [h, ho]
    · simp only [h, if_false, List.map_cons, map_key_absorb o found, List.mem_cons, Ne.symm h,
        false_or]
      split <;> rfl

theorem nodup_absorb {found : List Offence} (h : (found.map Offence.key).Nodup) (o : Offence) :
    ((absorb found o).map Offence.key).Nodup := by
  rw [map_key_absorb]
  split
  · exact h
  · rename_i ho
    rw [List.nodup_append]
    refine ⟨h, by simp, fun a ha b hb => ?_⟩
    rw [List.mem_singleton.1 hb]
    rintro rfl
    exact ho ha

theorem nodup_merge : ∀ {entries found : List Offence}, (found.map Offence.key).Nodup →
    ((merge found entries).map Offence.key).Nodup
  | [], _, h => h
  | _ :: entries, _, h => @nodup_merge entries _ (nodup_absorb h _)

theorem absorb_absorb {a o : Offence} (h : a.key = o.key) : ∀ found : List Offence,
    absorb (absorb found a) o = absorb found { o with periods := a.periods ++ o.periods }
  | [] => by simp [absorb, h]
  | b :: found => by
    have ho : (⟨o.rule, o.reason, a.periods ++ o.periods⟩ : Offence).key = o.key := rfl
    have ha : (⟨a.rule, a.reason, b.periods ++ a.periods⟩ : Offence).key = o.key := h
    by_cases hb : b.key = o.key
    · simp [absorb, hb, h, ho, ha]
    · simp [absorb, hb, h, ho, absorb_absorb h found]

theorem absorb_comm {a o : Offence} (h : a.key ≠ o.key) : ∀ {found : List Offence},
    o.key ∈ found.map Offence.key → absorb (absorb found a) o = absorb (absorb found o) a
  | [], ho => by simp at ho
  | b :: found, ho => by
    have hoa : ∀ ps, (⟨o.rule, o.reason, ps⟩ : Offence).key ≠ a.key := fun _ => h.symm
    have hao : ∀ ps, (⟨a.rule, a.reason, ps⟩ : Offence).key ≠ o.key := fun _ => h
    by_cases hbo : b.key = o.key
    · simp [absorb, hbo, h.symm, hoa]
    · have ho' : o.key ∈ found.map Offence.key := by
        rw [List.map_cons, List.mem_cons] at ho
        exact ho.resolve_left (Ne.symm hbo)
      by_cases hba : b.key = a.key
      · simp [absorb, hba, h, hao]
      · simp [absorb, hbo, hba, absorb_comm h ho']

theorem merge_absorb_of_mem {o : Offence} : ∀ {entries found : List Offence},
    o.key ∉ entries.map Offence.key → o.key ∈ found.map Offence.key →
      merge (absorb found o) entries = absorb (merge found entries) o
  | [], _, _, _ => rfl
  | a :: entries, found, hn, ho => by
    rw [List.map_cons, List.mem_cons, not_or] at hn
    have ho' : o.key ∈ (absorb found a).map Offence.key := by
      rw [map_key_absorb]
      split
      · exact ho
      · exact List.mem_append_left _ ho
    rw [merge_cons, merge_cons, ← merge_absorb_of_mem hn.2 ho', absorb_comm (Ne.symm hn.1) ho]

/-- An entry may be added to entries before or after these are added to findings. -/
theorem merge_absorb (o : Offence) : ∀ {entries found : List Offence},
    (entries.map Offence.key).Nodup →
      merge found (absorb entries o) = absorb (merge found entries) o
  | [], _, _ => rfl
  | a :: entries, found, h => by
    rw [List.map_cons, List.nodup_cons] at h
    by_cases ha : a.key = o.key
    · have hmem : o.key ∈ (absorb found a).map Offence.key := by
        rw [map_key_absorb, ← ha]
        split
        · assumption
        · simp
      rw [merge_cons, ← merge_absorb_of_mem (ha ▸ h.1) hmem, absorb_absorb ha, absorb, if_pos ha,
        merge_cons]
    · rw [absorb, if_neg ha, merge_cons, merge_cons, merge_absorb o h.2]

/-- Entries may be put together before they are added to findings. -/
theorem merge_merge_nil (found entries : List Offence) :
    merge found (merge [] entries) = merge found entries := by
  induction entries using List.reverseRecOn with
  | nil => rfl
  | append_singleton entries o ih =>
    have hnd : ((merge [] entries).map Offence.key).Nodup := nodup_merge List.nodup_nil
    rw [merge_concat, merge_concat, merge_absorb o hnd, ih]

section Outcomes

variable {τ : ValueType}

theorem offences_eq_merge (os : List (Outcome τ)) :
    offences os = merge [] ((failures os).map Offence.single) := by
  rw [offences_eq_foldl, merge, List.foldl_map]
  congr 1
  funext found x
  exact record_eq_absorb x.1 x.2 found

theorem offences_append (xs ys : List (Outcome τ)) :
    offences (xs ++ ys) = merge (offences xs) (offences ys) := by
  rw [offences_eq_merge ys, merge_merge_nil, offences_eq_merge, offences_eq_merge]
  simp only [failures, merge, List.filterMap_append, List.map_append, List.foldl_append]

theorem offences_flatten (oss : List (List (Outcome τ))) :
    offences oss.flatten = oss.foldl (fun found os => merge found (offences os)) [] := by
  induction oss using List.reverseRecOn with
  | nil => rfl
  | append_singleton oss os ih => simp [offences_append, ih]

theorem successes_flatten (oss : List (List (Outcome τ))) :
    successes oss.flatten = oss.flatMap successes := by
  unfold successes
  rw [List.filterMap_flatten, List.flatMap_def]

/-- The results of a run; none if it was no success. -/
def RunResult.results : RunResult τ → List (PeriodResult τ)
  | success results _ => results
  | invalid _ => []

/-- The offences of a run; none if it was a success. -/
def RunResult.offences : RunResult τ → List Offence
  | success _ _ => []
  | invalid findings => findings.offences

/-- Several runs as one: all results if all are successes, else all offences. -/
def joined (stamp : Stamp) (runs : List (RunResult τ)) : RunResult τ :=
  if ∀ x ∈ runs, x.isSuccess = true then .success (runs.flatMap (·.results)) stamp
  else .invalid ⟨runs.foldl (fun found x => merge found x.offences) [], stamp⟩

theorem offences_assemble (stamp : Stamp) (os : List (Outcome τ)) :
    (assemble stamp os).offences = offences os := by
  rcases h : assemble stamp os with ⟨results, stamp'⟩ | findings
  · exact (assemble_eq_success_iff.1 h).1.symm
  · exact assemble_eq_invalid h

theorem results_assemble {stamp : Stamp} {os : List (Outcome τ)} (h : offences os = []) :
    (assemble stamp os).results = successes os := by
  rw [assemble_eq_success_iff.2 ⟨h, rfl, rfl⟩, RunResult.results]

theorem assemble_of_ne_nil {stamp : Stamp} {os : List (Outcome τ)} (h : offences os ≠ []) :
    assemble stamp os = .invalid ⟨offences os, stamp⟩ := by
  unfold assemble
  split
  · contradiction
  · rfl

theorem assemble_flatten (stamp : Stamp) (oss : List (List (Outcome τ))) :
    assemble stamp oss.flatten = joined stamp (oss.map (assemble stamp)) := by
  have hall : (∀ x ∈ oss.map (assemble stamp), x.isSuccess = true) ↔
      offences oss.flatten = [] := by
    simp only [offences_eq_nil_iff, List.forall_mem_map, isSuccess_assemble,
      List.forall_mem_flatten]
  unfold joined
  split
  · rename_i h
    have hnil := hall.1 h
    rw [assemble_eq_success_iff.2 ⟨hnil, rfl, rfl⟩, successes_flatten, List.flatMap_map]
    congr 1
    refine List.flatMap_congr fun os hos => (results_assemble ?_).symm
    exact isSuccess_assemble.1 (h _ (List.mem_map_of_mem hos))
  · rename_i h
    rw [assemble_of_ne_nil fun hnil => h (hall.2 hnil), offences_flatten, List.foldl_map]
    simp only [offences_assemble]

end Outcomes

end DatedRules
