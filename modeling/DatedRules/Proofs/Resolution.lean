import DatedRules.Proofs.Definition
import DatedRules.Rule.Evaluation
import Mathlib.Data.List.OfFn

/-!
# Rule graphs on a date

On a date a choice among variants comes down to the latest of those that are valid (`latest?`).
`Graph.resolve` cuts down every choice of a graph in this way, and `Rule.inputs` lists the rules
that are then directly below a rule, so that the resolved graph of a rule has the resolved graphs of
these as its children (`Rule.resolve_graph`). Positions in the resolved rule are paths of indices
(`Rule.at?`).

Where the variants ascend by their dates, as they do in a well-formed rule, the evaluation selects
the latest one that is valid (`latest?_of_selected?`).
-/

namespace DatedRules

instance : Std.IsLinearPreorder Date where
  le_refl := Date.le_refl
  le_trans _ _ _ := Date.le_trans
  le_total := Date.le_total

/-- The latest element of those whose date is not after the one asked for. -/
def latest? {α : Type*} (validFrom : α → Date) (d : Date) (xs : List α) : Option α :=
  (xs.filter fun x => validFrom x ≤ d).maxOn? validFrom

section Latest

variable {α β : Type*} {validFrom : α → Date} {d : Date}

theorem mem_of_latest? {xs : List α} {x : α} (h : latest? validFrom d xs = some x) : x ∈ xs :=
  (List.mem_filter.1 (List.maxOn?_mem h)).1

theorem maxOn_map (key : β → Date) (f : α → β) (x y : α) :
    maxOn key (f x) (f y) = f (maxOn (key ∘ f) x y) := by
  simp only [maxOn_eq_if, Function.comp_apply]
  split <;> rfl

theorem maxOn?_map (key : β → Date) (f : α → β) : ∀ xs : List α,
    (xs.map f).maxOn? key = (xs.maxOn? (key ∘ f)).map f
  | [] => rfl
  | x :: xs => by
    rw [List.map_cons, List.maxOn?_cons, List.maxOn?_cons, maxOn?_map key f xs]
    rcases xs.maxOn? (key ∘ f) with _ | y
    · rfl
    · simp only [Option.map_some, Option.elim_some, maxOn_map]

theorem latest?_map (f : α → β) (validFrom : β → Date) (xs : List α) :
    latest? validFrom d (xs.map f) = (latest? (validFrom ∘ f) d xs).map f := by
  unfold latest?
  rw [List.filter_map, maxOn?_map]
  rfl

end Latest

namespace Graph

mutual

/-- The graph with every choice cut down to its latest variant that is valid on a date. -/
def resolve (d : Date) : Graph → Graph
  | node info kind children =>
    node info kind <|
      if kind = .latestValidVariant then
        (latest? (·.info.validFrom) d (resolveAll d children)).toList
      else resolveAll d children

def resolveAll (d : Date) : List Graph → List Graph
  | [] => []
  | g :: gs => resolve d g :: resolveAll d gs

end

theorem resolveAll_eq_map (d : Date) : ∀ gs : List Graph, resolveAll d gs = gs.map (resolve d)
  | [] => rfl
  | g :: gs => by rw [resolveAll, resolveAll_eq_map d gs, List.map_cons]

theorem info_resolve (d : Date) (g : Graph) : (g.resolve d).info = g.info := by
  cases g
  rfl

theorem resolve_choice (d : Date) (info : RuleInfo) (children : List Graph) :
    (node info .latestValidVariant children).resolve d =
      node info .latestValidVariant
        ((latest? (·.info.validFrom) d children).map (resolve d)).toList := by
  rw [resolve, if_pos rfl, resolveAll_eq_map, latest?_map]
  simp only [Function.comp_def, info_resolve]

theorem resolve_other (d : Date) (info : RuleInfo) {kind : Kind} (h : kind ≠ .latestValidVariant)
    (children : List Graph) :
    (node info kind children).resolve d = node info kind (children.map (resolve d)) := by
  rw [resolve, if_neg h, resolveAll_eq_map]

mutual

/-- The number of rules on the longest way down. -/
def height : Graph → Nat
  | node _ _ children => heightAll children + 1

def heightAll : List Graph → Nat
  | [] => 0
  | g :: gs => Nat.max (height g) (heightAll gs)

end

end Graph

namespace Rule

variable {G : Type}

/-- The rules directly below a rule on a date, of a choice the latest variant only. -/
def inputs (d : Date) : {τ : ValueType} → Rule G τ → List (Σ σ, Rule G σ)
  | _, constant _ _ | _, extract _ _ | _, extractAt _ _ => []
  | _, combine1 _ a _ => [⟨_, a⟩]
  | _, combine2 _ a b _ => [⟨_, a⟩, ⟨_, b⟩]
  | _, combine3 _ a b c _ => [⟨_, a⟩, ⟨_, b⟩, ⟨_, c⟩]
  | _, product _ _ factors => List.ofFn fun i => ⟨_, factors i⟩
  | τ, variants _ _ candidates =>
    ((latest? validFrom d (List.ofFn candidates)).map fun a => ⟨τ, a⟩).toList

theorem exists_of_mem_inputs_variants {d : Date} {τ : ValueType} {info : RuleInfo} {n : Nat}
    {candidates : Fin n → Rule G τ} {s : Σ σ, Rule G σ}
    (hs : s ∈ (variants info n candidates).inputs d) : ∃ i, s = ⟨τ, candidates i⟩ := by
  simp only [inputs, Option.mem_toList, Option.map_eq_some_iff] at hs
  obtain ⟨a, ha, rfl⟩ := hs
  obtain ⟨i, rfl⟩ := List.mem_ofFn.1 (mem_of_latest? ha)
  exact ⟨i, rfl⟩

/-- The rule at the end of a path down from a rule on a date. -/
def at? (d : Date) : List Nat → {τ : ValueType} → Rule G τ → Option (Σ σ, Rule G σ)
  | [], _, r => some ⟨_, r⟩
  | i :: path, _, r => (r.inputs d)[i]?.bind fun s => s.2.at? d path

/-- What holds of a rule if it holds of all rules below it holds of every rule. -/
theorem inputs_induction {motive : ∀ {τ : ValueType}, Rule G τ → Prop} (d : Date)
    (step : ∀ {τ : ValueType} (r : Rule G τ), (∀ s ∈ r.inputs d, motive s.2) → motive r) :
    ∀ {τ : ValueType} (r : Rule G τ), motive r
  | _, constant _ _ | _, extract _ _ | _, extractAt _ _ => step _ (by simp [inputs])
  | _, combine1 _ a _ => step _ (by simpa [inputs] using inputs_induction d step a)
  | _, combine2 _ a b _ => step _ (by
    simpa [inputs] using ⟨inputs_induction d step a, inputs_induction d step b⟩)
  | _, combine3 _ a b c _ => step _ (by
    simpa [inputs] using ⟨inputs_induction d step a, inputs_induction d step b,
      inputs_induction d step c⟩)
  | _, product _ _ factors => step _ fun s hs => by
    obtain ⟨i, rfl⟩ := List.mem_ofFn.1 hs
    exact inputs_induction d step (factors i)
  | _, variants _ _ candidates => step _ fun s hs => by
    obtain ⟨i, rfl⟩ := exists_of_mem_inputs_variants hs
    exact inputs_induction d step (candidates i)

theorem WellFormed.of_mem_inputs {d : Date} {τ : ValueType} {r : Rule G τ} (h : r.WellFormed)
    {s : Σ σ, Rule G σ} (hs : s ∈ r.inputs d) : s.2.WellFormed := by
  cases r with
  | constant | extract | extractAt => simp [inputs] at hs
  | combine1 | combine2 | combine3 =>
    simp only [inputs, List.mem_cons, List.not_mem_nil, or_false] at hs
    simp only [WellFormed] at h
    grind
  | product info n factors =>
    obtain ⟨i, rfl⟩ := List.mem_ofFn.1 hs
    exact h.2 i
  | variants info n candidates =>
    obtain ⟨i, rfl⟩ := exists_of_mem_inputs_variants hs
    exact h.2.2 i

theorem info_graph {τ : ValueType} (r : Rule G τ) : r.graph.info = r.info := by
  cases r <;> rfl

/-- The resolved graph of a rule, from those of the rules below it. -/
theorem resolve_graph (d : Date) {τ : ValueType} (r : Rule G τ) : r.graph.resolve d =
    .node r.info r.kind ((r.inputs d).map fun s => s.2.graph.resolve d) := by
  cases r with
  | variants info n candidates =>
    have hv : (fun g : Graph => g.info.validFrom) ∘ (graph : Rule G τ → Graph) = validFrom := by
      funext a
      simp only [Function.comp_apply, info_graph]
      rfl
    rw [graph, Graph.resolve_choice, ← Function.comp_def graph, ← List.map_ofFn, latest?_map, hv]
    simp only [inputs]
    rcases latest? validFrom d (List.ofFn candidates) with _ | a <;> rfl
  | product info n factors =>
    rw [graph, Graph.resolve_other d info (by decide), List.map_ofFn]
    simp only [inputs, List.map_ofFn]
    rfl
  | _ => rfl

end Rule

section Selection

variable {n : Nat} {d : Date} {i : Fin n}

theorem selected?_eq_some {validFrom : Fin n → Date} (h : Rule.selected? validFrom d = some i) :
    validFrom i ≤ d ∧ ∀ j, i < j → ¬ validFrom j ≤ d := by
  unfold Rule.selected? at h
  obtain ⟨hi, after, before, hsplit, hafter⟩ := List.find?_eq_some_iff_append.1 h
  refine ⟨by simpa using hi, fun j hij => ?_⟩
  have hdesc : (after ++ i :: before).Pairwise (· > ·) := by
    rw [← hsplit]
    exact List.pairwise_reverse.2 (List.pairwise_lt_finRange n)
  have hj : j ∈ after ++ i :: before := by
    rw [← hsplit]
    simp
  rw [List.pairwise_append, List.pairwise_cons] at hdesc
  simp only [List.mem_append, List.mem_cons] at hj
  rcases hj with hj | rfl | hj
  · simpa using hafter j hj
  · omega
  · have := hdesc.2.1.1 j hj
    omega

theorem exists_selected? {validFrom : Fin n → Date} (h : validFrom i ≤ d) :
    ∃ j, Rule.selected? validFrom d = some j := by
  rw [← Option.isSome_iff_exists, Rule.selected?, List.find?_isSome]
  exact ⟨i, List.mem_reverse.2 (List.mem_finRange i), by simpa using h⟩

/-- Among candidates in ascending order the last that is valid is the latest: those after it are not
valid, and those before it have earlier dates. -/
theorem latest?_of_selected? {α : Type*} {validFrom : α → Date} {candidates : Fin n → α}
    (hasc : ∀ j k, j < k → validFrom (candidates j) < validFrom (candidates k))
    (h : Rule.selected? (fun j => validFrom (candidates j)) d = some i) :
    latest? validFrom d (List.ofFn candidates) = some (candidates i) := by
  obtain ⟨hi, hlast⟩ := selected?_eq_some h
  have hmem : candidates i ∈ (List.ofFn candidates).filter fun x => validFrom x ≤ d :=
    List.mem_filter.2 ⟨List.mem_ofFn.2 ⟨i, rfl⟩, by simpa using hi⟩
  obtain ⟨m, hm⟩ := Option.isSome_iff_exists.1 (List.isSome_maxOn?_of_mem (f := validFrom) hmem)
  have hle : validFrom (candidates i) ≤ validFrom m := by
    have := List.le_apply_get_maxOn?_of_mem (f := validFrom) hmem
    simpa only [hm, Option.get_some] using this
  obtain ⟨hmo, hmd⟩ := List.mem_filter.1 (List.maxOn?_mem hm)
  obtain ⟨j, rfl⟩ := List.mem_ofFn.1 hmo
  rw [latest?, hm]
  rcases Nat.lt_trichotomy j i with hji | hji | hij
  · exact absurd hle (Date.not_le.2 (hasc j i hji))
  · rw [Fin.ext hji]
  · exact absurd (by simpa using hmd) (hlast j hij)

end Selection

end DatedRules
