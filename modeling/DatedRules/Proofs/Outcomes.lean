import DatedRules.Proofs.Grouping
import DatedRules.Proofs.Steady

/-!
# What outcomes tell

Outcomes account for an evaluation over a period (`Accounts`) if their pieces tile the period and
each tells how the evaluation ends on every date of its piece. The outcomes of a run do so on a
basis that is steady where the rule reads it (`Rule.outcomes_account`), and so do those of a run on
a basis that varies, if that is steady itself (`Rule.runVarying_account`). A total rule always has
outcomes (`Rule.exists_run`, `Rule.exists_runVarying`).

On a date of the period the evaluation has a value if and only if the results among the outcomes
have it there (`Accounts.result_iff`), and fails if and only if the failures among them do
(`Accounts.failure_iff`). So there are no offences if and only if the evaluation has a value on
every date (`Accounts.offences_eq_nil_iff`).
-/

namespace DatedRules

section Accounts

variable {τ : ValueType}

/-- What a piece's outcome tells of one of its dates. -/
def endingOn (d : Date) : Except Failure (Evaluated τ) → Except Stop (Evaluated τ)
  | .ok e => .ok e
  | .error f => .error (.failure { f with date := d })

/-- The outcomes tell how an evaluation ends on every date of a period. -/
structure Accounts (ev : Date → Except Stop (Evaluated τ)) (p : Period) (os : List (Outcome τ)) :
    Prop where
  tiles : p.Tiles (os.map Prod.fst)
  tells : ∀ o ∈ os, ∀ d ∈ o.1, ev d = endingOn d o.2

variable {ev : Date → Except Stop (Evaluated τ)} {p : Period} {os : List (Outcome τ)}

theorem Accounts.exists_mem (h : Accounts ev p os) {d : Date} (hd : d ∈ p) :
    ∃ o ∈ os, d ∈ o.1 := by
  obtain ⟨q, hq, hdq⟩ := h.tiles.mem_iff.1 hd
  obtain ⟨o, ho, rfl⟩ := List.mem_map.1 hq
  exact ⟨o, ho, hdq⟩

theorem Accounts.mem (h : Accounts ev p os) {o : Outcome τ} (ho : o ∈ os) {d : Date}
    (hd : d ∈ o.1) : d ∈ p :=
  h.tiles.mem_iff.2 ⟨o.1, List.mem_map_of_mem ho, hd⟩

theorem accounts_flatten {parts : List Period} {oss : List (List (Outcome τ))} (ht : p.Tiles parts)
    (h : List.Forall₂ (Accounts ev) parts oss) : Accounts ev p oss.flatten where
  tiles := by
    rw [List.map_flatten]
    refine ht.flatten ?_
    rw [List.forall₂_map_right_iff]
    exact h.imp fun _ _ hq => hq.tiles
  tells := by
    intro o ho
    obtain ⟨os, hos, ho⟩ := List.mem_flatten.1 ho
    obtain ⟨q, -, hq⟩ := exists_of_forall₂_of_mem h hos
    exact hq.tells o ho

theorem Accounts.congr {ev' : Date → Except Stop (Evaluated τ)} (h : Accounts ev p os)
    (he : ∀ d ∈ p, ev d = ev' d) : Accounts ev' p os where
  tiles := h.tiles
  tells := by
    intro o ho d hd
    rw [← he d (h.mem ho hd)]
    exact h.tells o ho d hd

/-- The entries that group the failures hold a date exactly where the evaluation fails so. -/
theorem Accounts.failure_iff (h : Accounts ev p os) {d : Date} (hd : d ∈ p) {rule : RuleInfo}
    {reason : Reason} : (∃ q, ((rule, reason), q) ∈ failures os ∧ d ∈ q) ↔
      ev d = .error (.failure ⟨reason, d, rule⟩) := by
  constructor
  · rintro ⟨q, hq, hdq⟩
    obtain ⟨f, hf, hk⟩ := mem_failures.1 hq
    cases hk
    exact h.tells _ hf d hdq
  · intro he
    obtain ⟨⟨q, x⟩, ho, hdq⟩ := h.exists_mem hd
    have hx := h.tells _ ho d hdq
    rw [he] at hx
    rcases x with f | e
    · cases hx
      exact ⟨q, mem_failures.2 ⟨f, ho, rfl⟩, hdq⟩
    · cases hx

theorem mem_successes {x : PeriodResult τ} : x ∈ successes os ↔ (x.period, .ok x.result) ∈ os := by
  unfold successes
  rw [List.mem_filterMap]
  constructor
  · rintro ⟨⟨q, f | e⟩, ho, h⟩
    · simp at h
    · simp only [Option.some.injEq] at h
      subst h
      exact ho
  · intro h
    exact ⟨_, h, rfl⟩

/-- The results hold a date exactly where the evaluation has a value, and then with this value. -/
theorem Accounts.result_iff (h : Accounts ev p os) {d : Date} (hd : d ∈ p) {e : Evaluated τ} :
    (∃ x ∈ successes os, d ∈ x.period ∧ x.result = e) ↔ ev d = .ok e := by
  constructor
  · rintro ⟨x, hx, hdx, rfl⟩
    exact h.tells _ (mem_successes.1 hx) d hdx
  · intro he
    obtain ⟨⟨q, x⟩, ho, hdq⟩ := h.exists_mem hd
    have hx := h.tells _ ho d hdq
    rw [he] at hx
    rcases x with f | e'
    · cases hx
    · cases hx
      exact ⟨⟨q, e⟩, mem_successes.2 ho, hdq, rfl⟩

theorem Accounts.grouped (h : Accounts ev p os) : Grouped (failures os) (offences os) :=
  grouped_offences h.tiles.ordered

theorem Accounts.offences_eq_nil_iff (h : Accounts ev p os) :
    offences os = [] ↔ ∀ d ∈ p, ∃ e, ev d = .ok e := by
  constructor
  · intro hnil d hd
    obtain ⟨⟨q, x⟩, ho, hdq⟩ := h.exists_mem hd
    rcases x with f | e
    · obtain ⟨o, ho', -⟩ := h.grouped.complete _ (mem_failures.2 ⟨f, ho, rfl⟩)
      rw [hnil] at ho'
      cases ho'
    · exact ⟨e, h.tells _ ho d hdq⟩
  · intro hall
    rw [List.eq_nil_iff_forall_not_mem]
    intro o ho
    obtain ⟨q, hq⟩ := List.exists_mem_of_ne_nil _ (h.grouped.inhabited o ho)
    have hf := (h.grouped.mem_periods ho).1 hq
    obtain ⟨f, hfo, -⟩ := mem_failures.1 hf
    have hstart : q.start ∈ p := h.mem hfo q.start_mem
    obtain ⟨e, he⟩ := hall _ hstart
    rw [(h.failure_iff hstart).1 ⟨q, hf, q.start_mem⟩] at he
    cases he

theorem successes_map_period (h : ∀ o ∈ os, ∃ e, o.2 = .ok e) :
    (successes os).map (·.period) = os.map Prod.fst := by
  induction os with
  | nil => rfl
  | cons o os ih =>
    obtain ⟨e, he⟩ := h o (List.mem_cons_self ..)
    obtain ⟨q, x⟩ := o
    subst he
    simp only [successes, List.filterMap_cons, List.map_cons] at ih ⊢
    rw [ih fun o ho => h o (List.mem_cons_of_mem _ ho)]

/-- Where the evaluation has a value on every date the pieces of the results tile the period. -/
theorem Accounts.tiles_results (h : Accounts ev p os) (hok : ∀ d ∈ p, ∃ e, ev d = .ok e) :
    p.Tiles ((successes os).map (·.period)) := by
  rw [successes_map_period]
  · exact h.tiles
  · intro o ho
    obtain ⟨e, he⟩ := hok _ (h.mem ho o.1.start_mem)
    rw [h.tells o ho _ o.1.start_mem] at he
    rcases ho' : o.2 with f | e'
    · rw [ho'] at he
      cases he
    · exact ⟨e', rfl⟩

theorem assemble_eq_success_iff {stamp stamp' : Stamp} {results : List (PeriodResult τ)} :
    assemble stamp os = .success results stamp' ↔
      offences os = [] ∧ successes os = results ∧ stamp = stamp' := by
  unfold assemble
  split <;> simp_all

theorem isSuccess_assemble {stamp : Stamp} :
    (assemble stamp os).isSuccess = true ↔ offences os = [] := by
  unfold assemble
  split <;> simp_all [RunResult.isSuccess]

theorem assemble_eq_invalid {stamp : Stamp} {findings : InvalidRun}
    (h : assemble stamp os = .invalid findings) : findings.offences = offences os := by
  unfold assemble at h
  split at h
  · cases h
  · cases h
    rfl

theorem endingOn_mapError (d d' : Date) (x : Except Failure (Evaluated τ)) :
    (endingOn d x).mapError (.redate d') = endingOn d' x := by
  cases x <;> rfl

end Accounts

namespace Rule

variable {G : Type} {τ : ValueType}

theorem outcome_eq_ok {r : Rule G τ} {g : G} {q : Period} {o : Outcome τ}
    (h : r.outcome g q = .ok o) : o.1 = q ∧ r.evaluate g q.start = endingOn q.start o.2 := by
  unfold outcome at h
  split at h
  · rename_i e he
    cases h
    exact ⟨rfl, he⟩
  · rename_i f hf
    cases h
    refine ⟨rfl, ?_⟩
    rw [endingOn, hf, ← date_of_evaluate hf]
  · cases h

theorem outcomes_map_fst {r : Rule G τ} {g : G} {p : Period} {os : List (Outcome τ)}
    (h : r.outcomes g p = .ok os) : os.map Prod.fst = r.pieces g p := by
  have hos := (mapM_eq_ok_iff.1 h).imp fun _ _ ho => (outcome_eq_ok ho).1.symm
  rw [← List.forall₂_map_right_iff, List.forall₂_eq_eq_eq] at hos
  exact hos.symm

theorem evaluate_of_mem_outcomes {r : Rule G τ} {g : G} {p : Period} {os : List (Outcome τ)}
    (h : r.outcomes g p = .ok os) {o : Outcome τ} (ho : o ∈ os) :
    o.1 ∈ r.pieces g p ∧ r.evaluate g o.1.start = endingOn o.1.start o.2 := by
  obtain ⟨q, hq, hqo⟩ := exists_of_forall₂_of_mem (mapM_eq_ok_iff.1 h) ho
  obtain ⟨rfl, he⟩ := outcome_eq_ok hqo
  exact ⟨hq, he⟩

/-- A run's outcomes account for the evaluation of the rule. -/
theorem outcomes_account {r : Rule G τ} {g : G} (hs : r.SteadyOn g) {p : Period}
    {os : List (Outcome τ)} (h : r.outcomes g p = .ok os) : Accounts (r.evaluate g) p os where
  tiles := by
    rw [outcomes_map_fst h]
    exact p.tiles_partition _
  tells := by
    intro o ho d hd
    obtain ⟨hq, he⟩ := evaluate_of_mem_outcomes h ho
    rw [evaluate_of_mem_piece hs hq hd, he, endingOn_mapError]

theorem run_eq_ok_iff {r : Rule G τ} {g : G} {p : Period} {res : RunResult τ} :
    r.run g p = .ok res ↔ ∃ os, r.outcomes g p = .ok os ∧ assemble r.stamp os = res := by
  unfold run
  rw [bind_eq_ok_iff]
  simp [pure, Except.pure]

/-- The pieces on which a varying basis is taken to stay the same. -/
def parts (r : Rule G τ) (v : Varying G) (p : Period) : List Period :=
  p.partition (r.breakpoints.union v.breakpoints)

theorem runVarying_eq_ok_iff {r : Rule G τ} {v : Varying G} {p : Period} {res : RunResult τ} :
    r.runVarying v p = .ok res ↔
      ∃ oss, List.Forall₂ (fun part os => r.outcomes (v.on part.start) part = .ok os)
          (r.parts v p) oss ∧ assemble r.stamp oss.flatten = res := by
  unfold runVarying
  rw [bind_eq_ok_iff]
  simp [pure, Except.pure, mapM_eq_ok_iff, parts]

/-- The outcomes of a run on a varying basis account for the evaluation on each date's basis. Each
part is run on the basis of its first day, which is that of all its days. -/
theorem runVarying_account {r : Rule G τ} {v : Varying G} {p : Period} (hv : v.Steady)
    (hs : ∀ d ∈ p, r.SteadyOn (v.on d)) {oss : List (List (Outcome τ))}
    (h : List.Forall₂ (fun part os => r.outcomes (v.on part.start) part = .ok os)
      (r.parts v p) oss) :
    Accounts (fun d => r.evaluate (v.on d) d) p oss.flatten := by
  have ht : p.Tiles (r.parts v p) := p.tiles_partition _
  refine accounts_flatten ht ?_
  have hm : List.Forall₂ (fun part os => part ∈ r.parts v p ∧
      r.outcomes (v.on part.start) part = .ok os) (r.parts v p) oss :=
    (List.forall₂_and_left _ _).2 ⟨fun _ hq => hq, h⟩
  refine hm.imp fun part os ⟨hpart, hos⟩ => ?_
  have hstart : part.start ∈ p := ht.mem_iff.2 ⟨part, hpart, part.start_mem⟩
  refine (outcomes_account (hs _ hstart) hos).congr fun d hd => ?_
  have hon : v.on part.start = v.on d := hv _ _ hd.1 fun b hb =>
    Period.no_breakpoint_of_mem_partition hpart hd (DateSet.mem_union.2 (.inr hb))
  rw [hon]

/-! ## Total rules -/

/-- Whether an evaluation does not end in the overflow of a combining function. -/
def Sound {α : Type} (x : Except Stop α) : Prop := ∀ o, x ≠ .error (.overflow o)

theorem Sound.bind {α β : Type} {x : Except Stop α} {f : α → Except Stop β} (hx : Sound x)
    (hf : ∀ a, Sound (f a)) : Sound (x >>= f) := by
  rcases x with e | a
  · intro o h
    refine hx o ?_
    cases h
    rfl
  · exact hf a

theorem sound_ok {α : Type} (a : α) : Sound (.ok a) := fun _ h => by cases h

theorem sound_failure {α : Type} (f : Failure) : Sound (α := α) (.error (.failure f)) :=
  fun _ h => by cases h

theorem sound_collect {α : Type} : ∀ {xs : List (Except Stop α)}, (∀ x ∈ xs, Sound x) →
    Sound (collect xs)
  | [], _ => sound_ok []
  | x :: xs, h => by
    refine (h x (List.mem_cons_self ..)).bind fun a => ?_
    exact (sound_collect fun y hy => h y (List.mem_cons_of_mem _ hy)).bind fun as => sound_ok _

theorem sound_applied {σ : ValueType} {info : RuleInfo} {children : List Node}
    {value : Except Decimal.Overflow σ.Carrier} (h : ∃ v, value = .ok v) :
    Sound (applied info children value) := by
  obtain ⟨v, rfl⟩ := h
  exact sound_ok _

theorem sound_evaluate (g : G) (d : Date) : ∀ {σ : ValueType} (r : Rule G σ), r.Total →
    Sound (r.evaluate g d)
  | _, constant _ _, _ => sound_ok _
  | _, extract _ _, _ => sound_ok _
  | _, extractAt _ _, _ => sound_ok _
  | _, combine1 info a f, h =>
    (sound_evaluate g d a h.1).bind fun x => sound_applied (h.2 x.value)
  | _, combine2 info a b f, h =>
    (sound_evaluate g d a h.1).bind fun x => (sound_evaluate g d b h.2.1).bind fun y =>
      sound_applied (h.2.2 x.value y.value)
  | _, combine3 info a b c f, h =>
    (sound_evaluate g d a h.1).bind fun x => (sound_evaluate g d b h.2.1).bind fun y =>
      (sound_evaluate g d c h.2.2.1).bind fun z => sound_applied (h.2.2.2 x.value y.value z.value)
  | _, product info n factors, h => by
    have hf : ∀ x ∈ List.ofFn fun i => (factors i).evaluate g d, Sound x := by
      intro x hx
      obtain ⟨i, rfl⟩ := List.mem_ofFn.1 hx
      exact sound_evaluate g d (factors i) (h i)
    refine (sound_collect hf).bind fun xs => ?_
    split
    · exact sound_ok _
    · exact sound_failure _
  | _, variants info n candidates, h => by
    rw [evaluate]
    split
    · rename_i i _
      exact (sound_evaluate g d (candidates i) (h i)).bind fun x => sound_ok _
    · exact sound_failure _

theorem exists_outcomes {r : Rule G τ} {g : G} {p : Period}
    (h : ∀ q ∈ r.pieces g p, Sound (r.evaluate g q.start)) : ∃ os, r.outcomes g p = .ok os := by
  refine exists_mapM_eq_ok fun q hq => ?_
  unfold outcome
  split
  · exact ⟨_, rfl⟩
  · exact ⟨_, rfl⟩
  · rename_i o ho
    exact absurd ho (h q hq o)

theorem exists_run {r : Rule G τ} (ht : r.Total) (g : G) (p : Period) :
    ∃ os, r.outcomes g p = .ok os ∧ r.run g p = .ok (assemble r.stamp os) := by
  obtain ⟨os, hos⟩ := exists_outcomes fun q (_ : q ∈ r.pieces g p) =>
    sound_evaluate g q.start r ht
  exact ⟨os, hos, run_eq_ok_iff.2 ⟨os, hos, rfl⟩⟩

theorem exists_runVarying {r : Rule G τ} (ht : r.Total) (v : Varying G) (p : Period) :
    ∃ oss, List.Forall₂ (fun part os => r.outcomes (v.on part.start) part = .ok os)
        (r.parts v p) oss ∧ r.runVarying v p = .ok (assemble r.stamp oss.flatten) := by
  have hp : ∀ part ∈ r.parts v p, ∃ os, r.outcomes (v.on part.start) part = .ok os :=
    fun part _ => exists_outcomes fun q _ => sound_evaluate _ q.start r ht
  obtain ⟨oss, hoss⟩ := exists_mapM_eq_ok hp
  have hall := mapM_eq_ok_iff.1 hoss
  exact ⟨oss, hall, runVarying_eq_ok_iff.2 ⟨oss, hall, rfl⟩⟩

end Rule

end DatedRules
