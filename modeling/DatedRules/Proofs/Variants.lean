import DatedRules.Proofs.Resolution
import Mathlib.Data.List.Duplicate
import Mathlib.Order.Bounds.Defs

/-!
# Choices among variants

In an ascending list of dates the first date that is followed by itself is the earliest one that
occurs twice, and there is none exactly where no date occurs twice (`firstRepeat?_eq_some_iff`,
`firstRepeat?_eq_none_iff`). Candidates that are given in another order have the same dates once
they are sorted, and they are the same list if no two of them have one date (`inOrder_eq_of_perm`).
So whether a choice can be defined, with which error it is refused and which rule it is do not
depend on the order (`Rule.latestValidVariant_perm`).

On a date the choice has the value of the candidate with the latest day up to then
(`Rule.evaluate_variants_of_isLatest`), and it fails by itself where all candidates start later
(`Rule.evaluate_variants_of_forall_lt`).
-/

namespace DatedRules

open List (Duplicate)

section Repeats

variable {d : Date}

/-- An earliest date that occurs twice is one of the rest where the first date occurs once. -/
theorem isLeast_duplicate_cons_iff {e : Date} {ds : List Date} (h : e ∉ ds) :
    IsLeast {x | Duplicate x (e :: ds)} d ↔ IsLeast {x | Duplicate x ds} d := by
  have hset : {x | Duplicate x (e :: ds)} = {x | Duplicate x ds} := by
    ext x
    simp only [Set.mem_ofPred_eq, List.duplicate_cons_iff]
    exact ⟨fun hx => hx.resolve_left fun hex => h (hex.1 ▸ hex.2), .inr⟩
  rw [hset]

theorem firstRepeat?_eq_some_iff : ∀ {ds : List Date}, ds.Pairwise (· ≤ ·) →
    (firstRepeat? ds = some d ↔ IsLeast {x | Duplicate x ds} d)
  | [], _ => by simp [firstRepeat?, IsLeast]
  | [e], _ => by simp [firstRepeat?, IsLeast]
  | e :: f :: ds, hle => by
    rw [List.pairwise_cons] at hle
    rw [firstRepeat?]
    split
    · rename_i hef
      subst hef
      have hleast : IsLeast {x | Duplicate x (e :: e :: ds)} e := by
        refine ⟨List.Duplicate.cons_mem (List.mem_cons_self ..), fun x hx => ?_⟩
        rcases List.mem_cons.1 hx.mem with rfl | hx
        · exact Date.le_refl x
        · exact hle.1 x hx
      constructor
      · rintro ⟨⟩
        exact hleast
      · intro h
        exact congrArg some (Date.le_antisymm (hleast.2 h.1) (h.2 hleast.1))
    · rename_i hne
      have hmem : e ∉ f :: ds := by
        intro he
        rcases List.mem_cons.1 he with rfl | he
        · exact hne rfl
        · exact hne (Date.le_antisymm (hle.1 f (List.mem_cons_self ..))
            ((List.pairwise_cons.1 hle.2).1 e he))
      rw [isLeast_duplicate_cons_iff hmem, firstRepeat?_eq_some_iff hle.2]

theorem firstRepeat?_eq_none_iff {ds : List Date} (hle : ds.Pairwise (· ≤ ·)) :
    firstRepeat? ds = none ↔ ds.Nodup := by
  constructor
  · intro h
    refine (ascending_of_firstRepeat? hle h).imp ?_
    rintro a _ hab rfl
    exact Date.lt_irrefl a hab
  · intro h
    rw [Option.eq_none_iff_forall_not_mem]
    intro d hd
    exact List.nodup_iff_forall_not_duplicate.1 h d ((firstRepeat?_eq_some_iff hle).1 hd).1

end Repeats

namespace Rule

variable {G : Type} {τ : ValueType} {info : RuleInfo} {candidates candidates' : List (Rule G τ)}

section Order

theorem duplicate_validFrom_inOrder {d : Date} :
    Duplicate d ((inOrder candidates).map validFrom) ↔ Duplicate d (candidates.map validFrom) := by
  rw [List.duplicate_iff_two_le_count, List.duplicate_iff_two_le_count,
    ((inOrder_perm candidates).map validFrom).count_eq]

theorem nodup_validFrom_inOrder :
    ((inOrder candidates).map validFrom).Nodup ↔ (candidates.map validFrom).Nodup :=
  ((inOrder_perm candidates).map validFrom).nodup_iff

theorem inOrder_ascending (h : (candidates.map validFrom).Nodup) :
    (inOrder candidates).Pairwise fun a b => a.validFrom < b.validFrom := by
  have hnone := (firstRepeat?_eq_none_iff (pairwise_validFrom_inOrder candidates)).2
    (nodup_validFrom_inOrder.2 h)
  exact List.pairwise_map.1
    (ascending_of_firstRepeat? (pairwise_validFrom_inOrder candidates) hnone)

theorem inOrder_eq_of_perm (hp : candidates.Perm candidates')
    (h : (candidates.map validFrom).Nodup) : inOrder candidates = inOrder candidates' := by
  have h' : (candidates'.map validFrom).Nodup := (hp.map validFrom).nodup_iff.1 h
  refine List.Perm.eq_of_pairwise (fun a b _ _ hab hba => ?_) (inOrder_ascending h)
    (inOrder_ascending h') ((inOrder_perm _).trans (hp.trans (inOrder_perm _).symm))
  exact absurd (Date.lt_trans hab hba) (Date.lt_irrefl _)

end Order

section Definition

theorem latestValidVariant_eq_ok_iff {r : Rule G τ} : latestValidVariant info candidates = .ok r ↔
    candidates ≠ [] ∧ (candidates.map validFrom).Nodup ∧
      variants info (inOrder candidates).length (inOrder candidates).get = r := by
  have hnone := firstRepeat?_eq_none_iff (pairwise_validFrom_inOrder candidates)
  rw [nodup_validFrom_inOrder] at hnone
  rw [← hnone, latestValidVariant]
  by_cases he : candidates = []
  · simp [he]
  · rw [if_neg (by simpa using he)]
    dsimp only
    rcases firstRepeat? ((inOrder candidates).map validFrom) with _ | d <;> simp [he]

theorem latestValidVariant_eq_error_iff {e : DefinitionError} :
    latestValidVariant info candidates = .error e ↔
      (candidates = [] ∧ e = .emptyCandidates info.reference) ∨
      ∃ d, IsLeast {x | Duplicate x (candidates.map validFrom)} d ∧
        e = .duplicateValidFrom info.reference d := by
  have hsome : ∀ d, firstRepeat? ((inOrder candidates).map validFrom) = some d ↔
      IsLeast {x | Duplicate x (candidates.map validFrom)} d := by
    intro d
    simpa only [duplicate_validFrom_inOrder] using
      firstRepeat?_eq_some_iff (d := d) (pairwise_validFrom_inOrder candidates)
  simp only [← hsome, latestValidVariant]
  by_cases he : candidates = []
  · subst he
    have hrest : firstRepeat? ((inOrder ([] : List (Rule G τ))).map validFrom) = none := by
      simp [inOrder, firstRepeat?]
    simp [hrest, eq_comm]
  · rw [if_neg (by simpa using he)]
    rcases firstRepeat? ((inOrder candidates).map validFrom) with _ | d <;> simp [he, eq_comm]

theorem latestValidVariant_perm (hp : candidates.Perm candidates') :
    latestValidVariant info candidates = latestValidVariant info candidates' := by
  have hdup : ∀ d,
      Duplicate d (candidates.map validFrom) ↔ Duplicate d (candidates'.map validFrom) := by
    intro d
    rw [List.duplicate_iff_two_le_count, List.duplicate_iff_two_le_count,
      (hp.map validFrom).count_eq]
  rcases h : latestValidVariant info candidates with e | r
  · have hnil : candidates = [] ↔ candidates' = [] := by
      constructor <;> rintro rfl
      · exact List.nil_perm.1 hp
      · exact List.perm_nil.1 hp
    rw [latestValidVariant_eq_error_iff, hnil] at h
    simp only [hdup] at h
    exact (latestValidVariant_eq_error_iff.2 h).symm
  · obtain ⟨hne, hnodup, rfl⟩ := latestValidVariant_eq_ok_iff.1 h
    have hne' : candidates' ≠ [] := fun hnil => hne (List.perm_nil.1 (hnil ▸ hp))
    refine (latestValidVariant_eq_ok_iff.2 ⟨hne', (hp.map validFrom).nodup_iff.1 hnodup, ?_⟩).symm
    rw [inOrder_eq_of_perm hp hnodup]

end Definition

section Evaluation

variable {g : G} {d : Date}

/-- The candidate for a date: it is valid by then, and of those that are it has the latest day. -/
structure IsLatest (d : Date) (candidates : List (Rule G τ)) (c : Rule G τ) : Prop where
  mem : c ∈ candidates
  valid : c.validFrom ≤ d
  greatest : ∀ a ∈ candidates, a.validFrom ≤ d → a.validFrom ≤ c.validFrom

theorem IsLatest.perm {c : Rule G τ} (hp : candidates.Perm candidates')
    (h : IsLatest d candidates c) : IsLatest d candidates' c :=
  ⟨hp.mem_iff.1 h.mem, h.valid, fun a ha => h.greatest a (hp.mem_iff.2 ha)⟩

/-- No two candidates have one date, so that only one is the latest. -/
theorem IsLatest.unique (hnodup : (candidates.map validFrom).Nodup) {b c : Rule G τ}
    (hb : IsLatest d candidates b) (hc : IsLatest d candidates c) : b = c := by
  have heq : b.validFrom = c.validFrom :=
    Date.le_antisymm (hc.greatest b hb.mem hb.valid) (hb.greatest c hc.mem hc.valid)
  exact List.inj_on_of_nodup_map hnodup hb.mem hc.mem heq

/-- What a choice makes of the result of the candidate. -/
def chosen (info : RuleInfo) (x : Evaluated τ) : Evaluated τ :=
  ⟨x.value, info, .latestValidVariant, [x.toNode]⟩

theorem evaluate_variants_of_forall_lt (h : ∀ c ∈ candidates, d < c.validFrom) :
    (variants info candidates.length candidates.get).evaluate g d =
      .error (.failure ⟨.noValidVariant, d, info⟩) := by
  rw [evaluate]
  split
  · rename_i i hi
    exact absurd (selected?_eq_some hi).1 (Date.not_le.2 (h _ (List.get_mem candidates i)))
  · rfl

variable (hasc : candidates.Pairwise fun a b => a.validFrom < b.validFrom)

include hasc

theorem isLatest_of_selected? {i : Fin candidates.length}
    (h : selected? (fun j => (candidates.get j).validFrom) d = some i) :
    IsLatest d candidates (candidates.get i) := by
  obtain ⟨hi, hlast⟩ := selected?_eq_some h
  refine ⟨List.get_mem candidates i, hi, fun a ha hle => ?_⟩
  obtain ⟨j, rfl⟩ := List.get_of_mem ha
  rcases Nat.lt_trichotomy j i with hji | hji | hij
  · exact Date.le_of_lt (List.pairwise_iff_get.1 hasc j i hji)
  · rw [Fin.ext hji]
    exact Date.le_refl _
  · exact absurd hle (hlast j hij)

theorem exists_isLatest {c : Rule G τ} (hc : c ∈ candidates) (hd : c.validFrom ≤ d) :
    ∃ i, selected? (fun j => (candidates.get j).validFrom) d = some i ∧
      IsLatest d candidates (candidates.get i) := by
  obtain ⟨i, rfl⟩ := List.get_of_mem hc
  obtain ⟨j, hj⟩ : ∃ j, selected? (fun j => (candidates.get j).validFrom) d = some j :=
    exists_selected? hd
  exact ⟨j, hj, isLatest_of_selected? hasc hj⟩

theorem evaluate_variants_of_isLatest {c : Rule G τ} (h : IsLatest d candidates c) :
    (variants info candidates.length candidates.get).evaluate g d =
      (c.evaluate g d).map (chosen info) := by
  have hnodup : (candidates.map validFrom).Nodup := by
    refine List.pairwise_map.2 (hasc.imp fun {a b} hab heq => ?_)
    exact Date.lt_irrefl _ (heq ▸ hab)
  obtain ⟨i, hi, hlatest⟩ := exists_isLatest hasc h.mem h.valid
  obtain rfl := hlatest.unique hnodup h
  simp only [evaluate, hi]
  rcases (candidates.get i).evaluate g d with stop | x <;> rfl

end Evaluation

section Choice

variable {r : Rule G τ} {g : G} {d : Date}

/-- A choice has its candidates below it in the order of their dates. -/
theorem graph_of_latestValidVariant (h : latestValidVariant info candidates = .ok r) :
    ∃ sorted : List (Rule G τ), sorted.Perm candidates ∧
      sorted.Pairwise (fun a b => a.validFrom < b.validFrom) ∧
      r.graph = .node info .latestValidVariant (sorted.map graph) := by
  obtain ⟨-, hnodup, rfl⟩ := latestValidVariant_eq_ok_iff.1 h
  refine ⟨inOrder candidates, inOrder_perm candidates, inOrder_ascending hnodup, ?_⟩
  rw [graph, ← Function.comp_def graph, ← List.map_ofFn, List.ofFn_get]

theorem existsUnique_isLatest (h : latestValidVariant info candidates = .ok r) {c : Rule G τ}
    (hc : c ∈ candidates) (hd : c.validFrom ≤ d) : ∃! a, IsLatest d candidates a := by
  obtain ⟨-, hnodup, -⟩ := latestValidVariant_eq_ok_iff.1 h
  obtain ⟨i, -, hi⟩ :=
    exists_isLatest (inOrder_ascending hnodup) ((inOrder_perm candidates).mem_iff.2 hc) hd
  have hlatest := hi.perm (inOrder_perm candidates)
  exact ⟨_, hlatest, fun a ha => ha.unique hnodup hlatest⟩

theorem evaluate_of_isLatest (h : latestValidVariant info candidates = .ok r) {c : Rule G τ}
    (hc : IsLatest d candidates c) : r.evaluate g d = (c.evaluate g d).map (chosen info) := by
  obtain ⟨-, hnodup, rfl⟩ := latestValidVariant_eq_ok_iff.1 h
  exact evaluate_variants_of_isLatest (inOrder_ascending hnodup)
    (hc.perm (inOrder_perm candidates).symm)

theorem evaluate_of_forall_lt (h : latestValidVariant info candidates = .ok r)
    (hd : ∀ c ∈ candidates, d < c.validFrom) :
    r.evaluate g d = .error (.failure ⟨.noValidVariant, d, info⟩) := by
  obtain ⟨-, -, rfl⟩ := latestValidVariant_eq_ok_iff.1 h
  exact evaluate_variants_of_forall_lt fun c hc => hd c ((inOrder_perm candidates).mem_iff.1 hc)

/-- A choice fails for want of a valid candidate, or because the candidate fails in the same way:
that may be a choice in its turn, with the same information. -/
theorem evaluate_eq_noValidVariant_iff (h : latestValidVariant info candidates = .ok r) :
    r.evaluate g d = .error (.failure ⟨.noValidVariant, d, info⟩) ↔
      (∀ c ∈ candidates, d < c.validFrom) ∨ ∃ c, IsLatest d candidates c ∧
        c.evaluate g d = .error (.failure ⟨.noValidVariant, d, info⟩) := by
  constructor
  · intro he
    by_cases hall : ∀ c ∈ candidates, d < c.validFrom
    · exact .inl hall
    · push Not at hall
      obtain ⟨c, hc, hd⟩ := hall
      obtain ⟨a, ha, -⟩ := existsUnique_isLatest h hc (Date.not_lt.1 hd)
      rw [evaluate_of_isLatest h ha] at he
      rcases hx : a.evaluate g d with stop | x <;> rw [hx] at he
      · cases he
        exact .inr ⟨a, ha, hx⟩
      · cases he
  · rintro (hall | ⟨c, hc, he⟩)
    · exact evaluate_of_forall_lt h hall
    · rw [evaluate_of_isLatest h hc, he]
      rfl

/-- A choice can be defined if and only if there are candidates and no two of them have one date; it
is refused for want of candidates or for the earliest date that occurs twice. On a date it has the
result of the latest candidate that is valid, and it fails where none is. The order in which the
candidates are given makes no difference: the error or the rule is the same. -/
theorem latestValidVariant_determined (info : RuleInfo) (candidates : List (Rule G τ)) :
    ((∃ r, latestValidVariant info candidates = .ok r) ↔
      candidates ≠ [] ∧ (candidates.map validFrom).Nodup) ∧
    (∀ e, latestValidVariant info candidates = .error e ↔
      (candidates = [] ∧ e = .emptyCandidates info.reference) ∨
      ∃ d, IsLeast {x | Duplicate x (candidates.map validFrom)} d ∧
        e = .duplicateValidFrom info.reference d) ∧
    (∀ r, latestValidVariant info candidates = .ok r →
      (∃ sorted : List (Rule G τ), sorted.Perm candidates ∧
        sorted.Pairwise (fun a b => a.validFrom < b.validFrom) ∧
        r.graph = .node info .latestValidVariant (sorted.map graph)) ∧
      ∀ (g : G) (d : Date),
        ((∃ c ∈ candidates, c.validFrom ≤ d) → ∃! c, IsLatest d candidates c) ∧
        (∀ c, IsLatest d candidates c → r.evaluate g d = (c.evaluate g d).map (chosen info)) ∧
        ((∀ c ∈ candidates, d < c.validFrom) →
          r.evaluate g d = .error (.failure ⟨.noValidVariant, d, info⟩)) ∧
        (r.evaluate g d = .error (.failure ⟨.noValidVariant, d, info⟩) →
          (∀ c ∈ candidates, d < c.validFrom) ∨ ∃ c, IsLatest d candidates c ∧
            c.evaluate g d = .error (.failure ⟨.noValidVariant, d, info⟩))) ∧
    ∀ candidates', candidates.Perm candidates' →
      latestValidVariant info candidates' = latestValidVariant info candidates := by
  refine ⟨?_, fun e => latestValidVariant_eq_error_iff, fun r h => ⟨graph_of_latestValidVariant h,
    fun g d => ⟨?_, fun c hc => evaluate_of_isLatest h hc, evaluate_of_forall_lt h,
      (evaluate_eq_noValidVariant_iff h).1⟩⟩,
    fun candidates' hp => (latestValidVariant_perm hp).symm⟩
  · simp only [latestValidVariant_eq_ok_iff, exists_and_left, exists_eq', and_true]
  · rintro ⟨c, hc, hd⟩
    exact existsUnique_isLatest h hc hd

end Choice

end Rule

end DatedRules
