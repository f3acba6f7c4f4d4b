import DatedRules.Proofs.Faults
import Mathlib.Data.List.Flatten

/-!
# The inventory of a rule

The references of a rule are those of the nodes of its graph, each once and in the order in which
they first stand there (`Graph.mem_firsts`, `Graph.nodup_firsts`, `Graph.firsts_ordered`).

The rules at work on a date are nodes of the graph. So an explanation refers to rules of the graph
only, in their order (`Rule.references_sublist`), a failure is that of a node
(`Rule.exists_visit_of_failure`), and a run, whose entries come from failures of its pieces, reports
nothing of any other rule (`Rule.inventory_complete`).
-/

namespace DatedRules

namespace Graph

section Firsts

variable {ref : Reference}

theorem mem_firsts : ∀ {refs seen : List Reference},
    ref ∈ firsts seen refs ↔ ref ∈ refs ∧ ref ∉ seen
  | [], _ => by simp [firsts]
  | r :: refs, seen => by
    unfold firsts
    split
    · rename_i hr
      rw [mem_firsts, List.mem_cons, or_and_right]
      refine (or_iff_right ?_).symm
      rintro ⟨rfl, hn⟩
      exact hn hr
    · rename_i hr
      rw [List.mem_cons, mem_firsts, List.mem_cons, List.mem_cons, not_or]
      by_cases h : ref = r <;> simp [h, hr]

theorem nodup_firsts : ∀ refs seen : List Reference, (firsts seen refs).Nodup
  | [], _ => .nil
  | r :: refs, seen => by
    unfold firsts
    split
    · exact nodup_firsts refs seen
    · exact List.nodup_cons.2 ⟨by simp [mem_firsts], nodup_firsts refs (r :: seen)⟩

/-- What comes earlier in the inventory has its first place in the list earlier. -/
theorem firsts_ordered : ∀ refs seen : List Reference,
    (firsts seen refs).Pairwise fun a b => refs.idxOf a < refs.idxOf b
  | [], _ => .nil
  | r :: refs, seen => by
    have later : ∀ {seen'}, r ∈ seen' → ∀ a ∈ firsts seen' refs,
        (r :: refs).idxOf a = refs.idxOf a + 1 := by
      intro seen' hr a ha
      have hne : r ≠ a := by
        rintro rfl
        exact (mem_firsts.1 ha).2 hr
      rw [List.idxOf_cons_ne _ hne]
    have ordered : ∀ {seen'}, r ∈ seen' →
        (firsts seen' refs).Pairwise fun a b => (r :: refs).idxOf a < (r :: refs).idxOf b := by
      intro seen' hr
      refine (firsts_ordered refs seen').imp_of_mem fun {a b} ha hb hab => ?_
      rw [later hr a ha, later hr b hb]
      omega
    unfold firsts
    split
    · exact ordered ‹_›
    · refine .cons (fun a ha => ?_) (ordered (List.mem_cons_self ..))
      rw [later (List.mem_cons_self ..) a ha, List.idxOf_cons_self]
      omega

end Firsts

mutual

theorem visits_resolve_sublist (d : Date) (k : Nat) : ∀ g : Graph,
    ((g.resolve d).visits k).Sublist (g.visits k)
  | node info kind children => by
    have ih := visitsAll_resolveAll_sublist d (k + 1) children
    rw [resolve, visits, visits, List.cons_sublist_cons]
    split
    · refine List.Sublist.trans ?_ ih
      rw [visitsAll_eq_flatMap, visitsAll_eq_flatMap]
      refine List.Sublist.flatMap ?_ _
      cases hl : latest? (·.info.validFrom) d (resolveAll d children) with
      | none => exact List.nil_sublist _
      | some c => exact List.singleton_sublist.2 (mem_of_latest? hl)
    · exact ih

theorem visitsAll_resolveAll_sublist (d : Date) (k : Nat) : ∀ gs : List Graph,
    (visitsAll k (resolveAll d gs)).Sublist (visitsAll k gs)
  | [] => List.Sublist.refl _
  | g :: gs => by
    rw [resolveAll, visitsAll, visitsAll]
    exact (visits_resolve_sublist d k g).append (visitsAll_resolveAll_sublist d k gs)

end

mutual

theorem postorder_perm (k : Nat) : ∀ g : Graph,
    g.postorder.Perm ((g.visits k).map fun v => (v.info, v.kind))
  | node _ _ children =>
    (List.perm_append_singleton _ _).trans ((postorderAll_perm (k + 1) children).cons _)

theorem postorderAll_perm (k : Nat) : ∀ gs : List Graph,
    (postorderAll gs).Perm ((visitsAll k gs).map fun v => (v.info, v.kind))
  | [] => .nil
  | g :: gs => by
    rw [postorderAll, visitsAll, List.map_append]
    exact (postorder_perm k g).append (postorderAll_perm k gs)

end

end Graph

/-- Whether the result of a run goes back to rules of a graph only. -/
def RunResult.Within {τ : ValueType} (graph : Graph) : RunResult τ → Prop
  | .success results _ => ∀ x ∈ results,
      x.result.references.Sublist graph.references ∧ x.result.references ⊆ graph.appliedRules
  | .invalid findings => ∀ o ∈ findings.offences, ∃ v ∈ graph.preorder, v.info = o.rule

namespace Rule

variable {G : Type} {g : G} {d : Date} {τ : ValueType} {r : Rule G τ}

theorem mem_appliedRules_iff {ref : Reference} :
    ref ∈ r.appliedRules ↔ ref ∈ r.graph.references := by
  rw [appliedRules, Graph.appliedRules, Graph.mem_firsts]
  simp

/-- An explanation refers to rules of the graph, in the order in which they stand there. -/
theorem references_sublist (hr : r.WellFormed) {e : Evaluated τ} (h : r.evaluate g d = .ok e) :
    e.references.Sublist r.graph.references := by
  rw [e.references_eq, skeleton_of_evaluate r hr h]
  exact (Graph.visits_resolve_sublist d 0 r.graph).map _

theorem references_subset (hr : r.WellFormed) {e : Evaluated τ} (h : r.evaluate g d = .ok e) :
    e.references ⊆ r.appliedRules :=
  fun _ href => mem_appliedRules_iff.2 ((references_sublist hr h).subset href)

/-- A failure is that of a node of the graph. -/
theorem exists_visit_of_failure (hr : r.WellFormed) {f : Failure}
    (h : r.evaluate g d = .error (.failure f)) : ∃ v ∈ r.graph.preorder, v.info = f.rule := by
  have hends := accords_evaluate g d r
  rw [h] at hends
  obtain ⟨s, hs, -, hrule⟩ := hends.exists_mem
  have hnode : (s.2.info, s.2.kind) ∈ (r.graph.resolve d).postorder := by
    rw [← map_postorder r hr]
    exact List.mem_map_of_mem hs
  obtain ⟨v, hv, hvs⟩ := List.mem_map.1 ((Graph.postorder_perm 0 _).mem_iff.1 hnode)
  refine ⟨v, (Graph.visits_resolve_sublist d 0 r.graph).subset hv, ?_⟩
  rw [hrule]
  exact congrArg Prod.fst hvs

/-- A run whose outcomes are evaluations of a rule goes back to rules of its graph. -/
theorem within_assemble (hr : r.WellFormed) {stamp : Stamp} {os : List (Outcome τ)}
    (h : ∀ o ∈ os, ∃ g d, r.evaluate g d = endingOn d o.2) :
    (assemble stamp os).Within r.graph := by
  rcases hres : assemble stamp os with ⟨results, stamp'⟩ | findings
  · obtain ⟨-, rfl, -⟩ := assemble_eq_success_iff.1 hres
    intro x hx
    obtain ⟨g, d, he⟩ := h _ (mem_successes.1 hx)
    exact ⟨references_sublist hr he, references_subset hr he⟩
  · intro o ho
    rw [assemble_eq_invalid hres] at ho
    obtain ⟨q, hq⟩ := exists_failure_of_mem_offences ho
    obtain ⟨f, hf, hk⟩ := mem_failures.1 hq
    obtain ⟨g, d, he⟩ := h _ hf
    obtain ⟨v, hv, hrule⟩ := exists_visit_of_failure hr he
    exact ⟨v, hv, hrule.trans (congrArg Prod.fst hk)⟩

theorem within_run (hr : r.WellFormed) {p : Period} {res : RunResult τ}
    (h : r.run g p = .ok res) : res.Within r.graph := by
  obtain ⟨os, hos, rfl⟩ := run_eq_ok_iff.1 h
  exact within_assemble hr fun o ho => ⟨g, _, (evaluate_of_mem_outcomes hos ho).2⟩

theorem within_runVarying (hr : r.WellFormed) {v : Varying G} {p : Period} {res : RunResult τ}
    (h : r.runVarying v p = .ok res) : res.Within r.graph := by
  obtain ⟨oss, hoss, rfl⟩ := runVarying_eq_ok_iff.1 h
  refine within_assemble hr fun o ho => ?_
  obtain ⟨os, hos, ho⟩ := List.mem_flatten.1 ho
  obtain ⟨part, -, hpart⟩ := exists_of_forall₂_of_mem hoss hos
  exact ⟨_, _, (evaluate_of_mem_outcomes hpart ho).2⟩

/-- The inventory of a rule has every reference of its graph once, in the order of their first
nodes. An explanation refers to rules of the graph in their order, so that the inventory has all of
them; every failure is that of a node, and no run reports anything of other rules. -/
theorem inventory_complete (hr : r.Built) :
    r.appliedRules.Nodup ∧
    (∀ ref, ref ∈ r.appliedRules ↔ ∃ v ∈ r.graph.preorder, v.info.reference = ref) ∧
    (r.appliedRules.Pairwise fun a b =>
      r.graph.references.idxOf a < r.graph.references.idxOf b) ∧
    (∀ g d e, r.evaluate g d = .ok e →
      e.references.Sublist r.graph.references ∧ e.references ⊆ r.appliedRules) ∧
    (∀ g d f, r.evaluate g d = .error (.failure f) → ∃ v ∈ r.graph.preorder, v.info = f.rule) ∧
    (∀ g p res, r.run g p = .ok res → res.Within r.graph) ∧
    ∀ v p res, r.runVarying v p = .ok res → res.Within r.graph := by
  have hwf := hr.wellFormed
  refine ⟨Graph.nodup_firsts _ _, fun ref => mem_appliedRules_iff.trans List.mem_map,
    Graph.firsts_ordered _ _,
    fun g d e h => ⟨references_sublist hwf h, references_subset hwf h⟩,
    fun g d f => exists_visit_of_failure hwf, fun g p res => within_run hwf,
    fun v p res => within_runVarying hwf⟩

open Reconciliation in
/-- The court fee is used twice and stands in the inventory once. -/
theorem inventory_complete_rule : rule.Built ∧
    rule.appliedRules.map (·.id) = ["ETTEROPPGJOER-RESULTAT", "DIFFERANSE", "UTBETALT", "NY-YTELSE",
      "BRUTTO", "AVKORTING", "RETTSGEBYR", "RETTSGEBYR-2023", "RETTSGEBYR-2024", "RETTSGEBYR-2025",
      "TERSKEL-ETTERBETALING", "ANDEL-ETTERBETALING"] ∧
    rule.appliedRules.Nodup ∧ rule.graph.references.length = 16 ∧
    ∃ res, rule.run raisedBasis (.openFrom (newYear 2022)) = .ok res ∧ res.isSuccess = false ∧
      res.Within rule.graph := by
  obtain ⟨hnodup, -, -, -, -, hwithin, -⟩ := inventory_complete rule_built
  refine ⟨rule_built, by decide, hnodup, by decide, ?_⟩
  have hfail : (rule.run raisedBasis (.openFrom (newYear 2022))).map (·.isSuccess) = .ok false :=
    rfl
  rcases hrun : rule.run raisedBasis (.openFrom (newYear 2022)) with o | res <;> rw [hrun] at hfail
  · cases hfail
  · exact ⟨res, rfl, Except.ok.inj hfail, hwithin _ _ _ hrun⟩

end Rule

end DatedRules
