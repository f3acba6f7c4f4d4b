import DatedRules.Proofs.Tiling
import DatedRules.Run

/-!
# Grouping failures

A failure is recorded in the entry of its rule and reason, or in a new one at the end
(`record_of_mem`, `record_of_fresh`). Whatever failures are recorded one after the other, each for a
later piece than the one before it, they end up grouped (`Grouped`): one entry for each rule and
reason among them, which holds the pieces of that rule and reason in order, and the entries stand in
the order of their first pieces (`grouped_foldl`).

The offences of a run are its failures, grouped (`grouped_offences`).
-/

namespace DatedRules

/-- What an entry is for. -/
def Offence.key (o : Offence) : RuleInfo × Reason := (o.rule, o.reason)

/-- The entry with one more piece, if it is for this rule and reason. -/
def Offence.extend (k : RuleInfo × Reason) (q : Period) (o : Offence) : Offence :=
  if o.key = k then { o with periods := o.periods ++ [q] } else o

theorem Offence.extend_key (k : RuleInfo × Reason) (q : Period) (o : Offence) :
    (o.extend k q).key = o.key := by
  unfold extend
  split <;> rfl

theorem Offence.mem_extend {k : RuleInfo × Reason} {q q' : Period} {o : Offence} :
    q' ∈ (o.extend k q).periods ↔ q' ∈ o.periods ∨ (o.key = k ∧ q' = q) := by
  unfold extend
  split <;> simp [*]

theorem record_of_fresh {k : RuleInfo × Reason} {q : Period} : ∀ {found : List Offence},
    (∀ o ∈ found, o.key ≠ k) → record k.1 k.2 q found = found ++ [⟨k.1, k.2, [q]⟩]
  | [], _ => rfl
  | o :: os, h => by
    have ho : ¬ (o.rule = k.1 ∧ o.reason = k.2) := fun hk =>
      h o (List.mem_cons_self ..) (Prod.ext hk.1 hk.2)
    rw [record, if_neg ho, record_of_fresh fun a ha => h a (List.mem_cons_of_mem _ ha)]
    rfl

theorem record_of_mem {k : RuleInfo × Reason} {q : Period} : ∀ {found : List Offence},
    found.Pairwise (fun a b => a.key ≠ b.key) → (∃ o ∈ found, o.key = k) →
      record k.1 k.2 q found = found.map (Offence.extend k q)
  | [], _, h => by simp at h
  | o :: os, hk, h => by
    rw [List.pairwise_cons] at hk
    by_cases ho : o.key = k
    · have hos : os.map (Offence.extend k q) = os := by
        refine (List.map_congr_left fun a ha => ?_).trans (List.map_id os)
        exact if_neg fun hak => hk.1 a ha (ho.trans hak.symm)
      have hc : o.rule = k.1 ∧ o.reason = k.2 := Prod.ext_iff.1 ho
      rw [record, if_pos hc, List.map_cons, hos, Offence.extend, if_pos ho, ← hc.1, ← hc.2]
    · have hc : ¬ (o.rule = k.1 ∧ o.reason = k.2) := fun h => ho (Prod.ext h.1 h.2)
      have hos : ∃ a ∈ os, a.key = k := by
        obtain ⟨a, ha, hak⟩ := h
        rcases List.mem_cons.1 ha with rfl | ha
        · exact absurd hak ho
        · exact ⟨a, ha, hak⟩
      rw [record, if_neg hc, record_of_mem hk.2 hos, List.map_cons, Offence.extend, if_neg ho]

/-- The pieces that failed for a rule and reason. -/
def piecesOf (xs : List ((RuleInfo × Reason) × Period)) (k : RuleInfo × Reason) : List Period :=
  (xs.filter fun x => x.1 = k).map (·.2)

theorem mem_piecesOf {xs : List ((RuleInfo × Reason) × Period)} {k : RuleInfo × Reason}
    {q : Period} : q ∈ piecesOf xs k ↔ (k, q) ∈ xs := by
  simp [piecesOf]

theorem piecesOf_ordered {xs : List ((RuleInfo × Reason) × Period)}
    (h : xs.Pairwise fun x y => x.2.Precedes y.2) (k : RuleInfo × Reason) :
    (piecesOf xs k).Pairwise Period.Precedes := by
  unfold piecesOf
  rw [List.pairwise_map]
  exact h.sublist List.filter_sublist

theorem piecesOf_append (xs : List ((RuleInfo × Reason) × Period)) (k k' : RuleInfo × Reason)
    (q : Period) :
    piecesOf (xs ++ [(k, q)]) k' = if k' = k then piecesOf xs k' ++ [q] else piecesOf xs k' := by
  unfold piecesOf
  rw [List.filter_append, List.map_append]
  split
  · rename_i h
    simp [h]
  · rename_i h
    simp [Ne.symm h]

/-- Entries that group failures by rule and reason. -/
structure Grouped (xs : List ((RuleInfo × Reason) × Period)) (found : List Offence) : Prop where
  distinct : found.Pairwise fun a b => a.key ≠ b.key
  exact : ∀ o ∈ found, o.periods = piecesOf xs o.key
  inhabited : ∀ o ∈ found, o.periods ≠ []
  complete : ∀ x ∈ xs, ∃ o ∈ found, o.key = x.1
  earliest : found.Pairwise fun a b => ∃ q ∈ a.periods, ∀ q' ∈ b.periods, q.Precedes q'

theorem grouped_nil : Grouped [] [] where
  distinct := .nil
  exact := by simp
  inhabited := by simp
  complete := by simp
  earliest := .nil

namespace Grouped

variable {xs : List ((RuleInfo × Reason) × Period)} {found : List Offence}

theorem mem_periods (h : Grouped xs found) {o : Offence} (ho : o ∈ found) {q : Period} :
    q ∈ o.periods ↔ (o.key, q) ∈ xs := by
  rw [h.exact o ho, mem_piecesOf]

section Later

variable {k : RuleInfo × Reason} {q : Period}

theorem later (h : Grouped xs found) (hq : ∀ x ∈ xs, x.2.Precedes q) {o : Offence} (ho : o ∈ found)
    {q' : Period} (hq' : q' ∈ o.periods) : q'.Precedes q :=
  hq _ ((h.mem_periods ho).1 hq')

/-- A failure of a rule and reason that have an entry. -/
theorem extend (h : Grouped xs found) (hq : ∀ x ∈ xs, x.2.Precedes q)
    (hk : ∃ o ∈ found, o.key = k) :
    Grouped (xs ++ [(k, q)]) (found.map (Offence.extend k q)) := by
  refine ⟨?_, ?_, ?_, ?_, ?_⟩
  · simpa only [List.pairwise_map, Offence.extend_key] using h.distinct
  · intro o ho
    obtain ⟨a, ha, rfl⟩ := List.mem_map.1 ho
    rw [Offence.extend_key, piecesOf_append, ← h.exact a ha, Offence.extend]
    split <;> rfl
  · intro o ho
    obtain ⟨a, ha, rfl⟩ := List.mem_map.1 ho
    obtain ⟨q', hq'⟩ := List.exists_mem_of_ne_nil _ (h.inhabited a ha)
    exact List.ne_nil_of_mem (Offence.mem_extend.2 (.inl hq'))
  · intro x hx
    have hxf : ∃ o ∈ found, o.key = x.1 := by
      rcases List.mem_append.1 hx with hx | hx
      · exact h.complete x hx
      · rw [List.mem_singleton.1 hx]
        exact hk
    obtain ⟨o, ho, hox⟩ := hxf
    exact ⟨_, List.mem_map_of_mem ho, (o.extend_key k q).trans hox⟩
  · rw [List.pairwise_map]
    refine h.earliest.imp_of_mem fun {a b} ha _ ⟨q₀, hq₀, hlt⟩ => ?_
    refine ⟨q₀, Offence.mem_extend.2 (.inl hq₀), fun q' hq' => ?_⟩
    rcases Offence.mem_extend.1 hq' with hq' | ⟨-, rfl⟩
    · exact hlt q' hq'
    · exact h.later hq ha hq₀

/-- A failure of a rule and reason that have no entry yet. -/
theorem push (h : Grouped xs found) (hq : ∀ x ∈ xs, x.2.Precedes q) (hk : ∀ o ∈ found, o.key ≠ k) :
    Grouped (xs ++ [(k, q)]) (found ++ [⟨k.1, k.2, [q]⟩]) := by
  have hnone : piecesOf xs k = [] := by
    rw [List.eq_nil_iff_forall_not_mem]
    intro q' hq'
    obtain ⟨o, ho, hok⟩ := h.complete _ (mem_piecesOf.1 hq')
    exact hk o ho hok
  refine ⟨?_, ?_, ?_, ?_, ?_⟩
  · refine List.pairwise_append.2 ⟨h.distinct, by simp, fun a ha b hb => ?_⟩
    rw [List.mem_singleton.1 hb]
    exact hk a ha
  · intro o ho
    rw [piecesOf_append]
    rcases List.mem_append.1 ho with ho | ho
    · rw [if_neg (hk o ho), h.exact o ho]
    · rw [List.mem_singleton.1 ho]
      simp [Offence.key, hnone]
  · intro o ho
    rcases List.mem_append.1 ho with ho | ho
    · exact h.inhabited o ho
    · simp [List.mem_singleton.1 ho]
  · intro x hx
    rcases List.mem_append.1 hx with hx | hx
    · obtain ⟨o, ho, hox⟩ := h.complete x hx
      exact ⟨o, List.mem_append_left _ ho, hox⟩
    · exact ⟨_, List.mem_append_right _ (List.mem_singleton_self _), by
        rw [List.mem_singleton.1 hx]; rfl⟩
  · refine List.pairwise_append.2 ⟨h.earliest, by simp, fun a ha b hb => ?_⟩
    obtain ⟨q', hq'⟩ := List.exists_mem_of_ne_nil _ (h.inhabited a ha)
    refine ⟨q', hq', fun q'' hq'' => ?_⟩
    rw [List.mem_singleton.1 hb, List.mem_singleton] at hq''
    rw [hq'']
    exact h.later hq ha hq'

/-- One more failure, for a later piece, keeps the entries grouped. -/
theorem record (h : Grouped xs found) (k : RuleInfo × Reason) (hq : ∀ x ∈ xs, x.2.Precedes q) :
    Grouped (xs ++ [(k, q)]) (record k.1 k.2 q found) := by
  by_cases hk : ∃ o ∈ found, o.key = k
  · rw [record_of_mem h.distinct hk]
    exact h.extend hq hk
  · have hfresh : ∀ o ∈ found, o.key ≠ k := fun o ho hok => hk ⟨o, ho, hok⟩
    rw [record_of_fresh hfresh]
    exact h.push hq hfresh

end Later

end Grouped

theorem grouped_foldl : ∀ {ys xs : List ((RuleInfo × Reason) × Period)} {found : List Offence},
    Grouped xs found → (xs ++ ys).Pairwise (fun x y => x.2.Precedes y.2) →
      Grouped (xs ++ ys) (ys.foldl (fun found x => record x.1.1 x.1.2 x.2 found) found)
  | [], xs, found, h, _ => by simpa using h
  | y :: ys, xs, found, h, hp => by
    have hy : ∀ x ∈ xs, x.2.Precedes y.2 := fun x hx =>
      (List.pairwise_append.1 hp).2.2 x hx y (List.mem_cons_self ..)
    rw [List.append_cons] at hp ⊢
    exact grouped_foldl (h.record y.1 hy) hp

section Offences

variable {τ : ValueType}

/-- The failures among outcomes. -/
def failures (os : List (Outcome τ)) : List ((RuleInfo × Reason) × Period) :=
  os.filterMap fun
    | (_, .ok _) => none
    | (q, .error f) => some ((f.rule, f.reason), q)

theorem mem_failures {os : List (Outcome τ)} {k : RuleInfo × Reason} {q : Period} :
    (k, q) ∈ failures os ↔ ∃ f, (q, .error f) ∈ os ∧ (f.rule, f.reason) = k := by
  unfold failures
  rw [List.mem_filterMap]
  constructor
  · rintro ⟨⟨q', x⟩, ho, h⟩
    rcases x with f | e
    · simp only [Option.some.injEq, Prod.mk.injEq] at h
      obtain ⟨h, rfl⟩ := h
      exact ⟨f, ho, Prod.ext_iff.2 (Prod.ext_iff.1 h)⟩
    · simp at h
  · rintro ⟨f, hf, rfl⟩
    exact ⟨_, hf, rfl⟩

theorem offences_eq_foldl (os : List (Outcome τ)) :
    offences os = (failures os).foldl (fun found x => record x.1.1 x.1.2 x.2 found) [] := by
  unfold offences failures
  rw [List.foldl_filterMap]
  congr 1
  funext found o
  rcases o with ⟨q, f | e⟩ <;> rfl

theorem key_of_mem_record {k : RuleInfo × Reason} {q : Period} {o : Offence} :
    ∀ {found : List Offence}, o ∈ record k.1 k.2 q found → o.key = k ∨ ∃ a ∈ found, a.key = o.key
  | [], ho => by simp_all [record, Offence.key]
  | a :: found, ho => by
    unfold record at ho
    split at ho <;> rcases List.mem_cons.1 ho with rfl | ho
    · exact .inl rfl
    · exact .inr ⟨o, List.mem_cons_of_mem _ ho, rfl⟩
    · exact .inr ⟨o, List.mem_cons_self .., rfl⟩
    · exact (key_of_mem_record ho).imp id fun ⟨b, hb, hk⟩ => ⟨b, List.mem_cons_of_mem _ hb, hk⟩

theorem exists_failure_of_mem_offences {os : List (Outcome τ)} {o : Offence}
    (ho : o ∈ offences os) : ∃ q, (o.key, q) ∈ failures os := by
  rw [offences_eq_foldl] at ho
  generalize failures os = xs at ho ⊢
  induction xs using List.reverseRecOn generalizing o with
  | nil => simp at ho
  | append_singleton xs x ih =>
    rw [List.foldl_append] at ho
    rcases key_of_mem_record ho with hk | ⟨a, ha, hk⟩
    · exact ⟨x.2, by simp [hk]⟩
    · obtain ⟨q, hq⟩ := ih ha
      exact ⟨q, by simp [← hk, hq]⟩

theorem failures_ordered {os : List (Outcome τ)}
    (h : (os.map Prod.fst).Pairwise Period.Precedes) :
    (failures os).Pairwise fun x y => x.2.Precedes y.2 := by
  rw [List.pairwise_map] at h
  refine List.Pairwise.filterMap _ (fun a b hab x hx y hy => ?_) h
  rcases a with ⟨q, f | e⟩ <;> simp at hx
  rcases b with ⟨q', f' | e'⟩ <;> simp at hy
  subst hx hy
  exact hab

/-- The offences of a run are its failures, grouped. -/
theorem grouped_offences {os : List (Outcome τ)}
    (h : (os.map Prod.fst).Pairwise Period.Precedes) : Grouped (failures os) (offences os) := by
  rw [offences_eq_foldl]
  exact grouped_foldl grouped_nil (failures_ordered h)

end Offences

end DatedRules
