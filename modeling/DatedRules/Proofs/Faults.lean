import DatedRules.Proofs.Explanation

/-!
# Which failure an evaluation reports

An evaluation goes through the rules at work on the date, children before parents and left before
right (`Rule.postorder`); these are the nodes of the resolved graph in that order
(`Rule.map_postorder`). A rule is itself at fault (`Rule.AtFault`) if it is a choice all of whose
candidates start later, or a product whose factors all have values but which is no decimal.

Put together from parts, an evaluation ends as the faults in these parts make it end
(`Accords.bind`, `accords_collect`): at the first rule at fault, whatever stands after it, and with
a value if there is none. No rule above takes part in this. So a total rule fails if and only if a
rule at work is at fault, and what is reported is the failure of the first of them
(`Rule.failure_of_evaluate`).
-/

namespace DatedRules

namespace Graph

mutual

/-- The nodes of a graph, children before parents and left before right. -/
def postorder : Graph → List (RuleInfo × Kind)
  | node info kind children => postorderAll children ++ [(info, kind)]

def postorderAll : List Graph → List (RuleInfo × Kind)
  | [] => []
  | g :: gs => postorder g ++ postorderAll gs

end

theorem postorderAll_eq_flatMap (gs : List Graph) : postorderAll gs = gs.flatMap postorder := by
  induction gs with
  | nil => rfl
  | cons g gs ih => rw [postorderAll, ih, List.flatMap_cons]

end Graph

namespace Rule

variable {G : Type} {g : G} {d : Date}

/-- The rules at work on a date, each after the rules below it. -/
def postorder (d : Date) : {τ : ValueType} → Rule G τ → List (Σ σ, Rule G σ)
  | τ, constant info value => [⟨τ, constant info value⟩]
  | τ, extract info read => [⟨τ, extract info read⟩]
  | τ, extractAt info read => [⟨τ, extractAt info read⟩]
  | τ, combine1 info a f => a.postorder d ++ [⟨τ, combine1 info a f⟩]
  | τ, combine2 info a b f => a.postorder d ++ b.postorder d ++ [⟨τ, combine2 info a b f⟩]
  | τ, combine3 info a b c f =>
    a.postorder d ++ b.postorder d ++ c.postorder d ++ [⟨τ, combine3 info a b c f⟩]
  | _, product info n factors =>
    (List.ofFn fun i => (factors i).postorder d).flatten ++ [⟨_, product info n factors⟩]
  | τ, variants info n candidates =>
    (match selected? (fun i => (candidates i).validFrom) d with
      | some i => (candidates i).postorder d
      | none => []) ++ [⟨τ, variants info n candidates⟩]

/-- Whether a rule itself has no value on a date, and why: the rules below it have theirs. -/
def AtFault (g : G) (d : Date) : {τ : ValueType} → Rule G τ → Reason → Prop
  | _, variants _ _ candidates, .noValidVariant => ∀ i, d < (candidates i).validFrom
  | _, product _ n factors, .overflow => ∃ xs : Fin n → Evaluated .decimal,
      (∀ i, (factors i).evaluate g d = .ok (xs i)) ∧
        Decimal.product (List.ofFn fun i => (xs i).value) = none
  | _, _, _ => False

theorem forall_lt_of_selected? {n : Nat} {validFrom : Fin n → Date}
    (h : selected? validFrom d = none) (i : Fin n) : d < validFrom i := by
  refine Date.not_le.1 fun hi => ?_
  obtain ⟨j, hj⟩ := exists_selected? hi
  rw [h] at hj
  cases hj

/-- The rules at work are those at work below, from left to right, and the rule itself. -/
theorem postorder_eq {τ : ValueType} {r : Rule G τ} (hr : r.WellFormed) :
    r.postorder d = (r.inputs d).flatMap (fun s => s.2.postorder d) ++ [⟨τ, r⟩] := by
  cases r with
  | variants info n candidates =>
    rw [postorder, inputs]
    rcases hs : selected? (fun i => (candidates i).validFrom) d with _ | i
    · have hnone : latest? validFrom d (List.ofFn candidates) = none := by
        rw [latest?, List.filter_eq_nil_iff.2]
        · rfl
        · intro a ha
          obtain ⟨i, rfl⟩ := List.mem_ofFn.1 ha
          simpa using Date.not_le.2 (forall_lt_of_selected? hs i)
      simp [hnone]
    · simp [latest?_of_selected? hr.2.1 hs]
  | product info n factors =>
    rw [postorder, inputs, List.flatMap_def, List.map_ofFn]
    rfl
  | _ => simp [postorder, inputs]

theorem map_postorder {τ : ValueType} (r : Rule G τ) : r.WellFormed →
    (r.postorder d).map (fun s => (s.2.info, s.2.kind)) = (r.graph.resolve d).postorder := by
  induction r using inputs_induction d with
  | step r ih =>
    intro hr
    rw [postorder_eq hr, resolve_graph, Graph.postorder, Graph.postorderAll_eq_flatMap,
      List.map_append, List.map_flatMap, List.flatMap_map]
    rw [List.flatMap_congr fun s hs => ih s hs (hr.of_mem_inputs hs)]
    rfl

theorem collect_ofFn_eq_ok_iff {α : Type} : ∀ {n : Nat} {f : Fin n → Except Stop α} {as : List α},
    collect (List.ofFn f) = .ok as ↔ ∃ xs : Fin n → α, (∀ i, f i = .ok (xs i)) ∧ List.ofFn xs = as
  | 0, f, as => by simp [collect]
  | n + 1, f, as => by
    rw [List.ofFn_succ, collect]
    simp only [bind_eq_ok_iff, collect_ofFn_eq_ok_iff]
    constructor
    · rintro ⟨a, ha, _, ⟨xs, hxs, rfl⟩, h⟩
      refine ⟨Fin.cons a xs, Fin.cases ha hxs, ?_⟩
      simpa [List.ofFn_succ] using Except.ok.inj h
    · rintro ⟨xs, hxs, rfl⟩
      exact ⟨xs 0, hxs 0, _, ⟨fun i => xs i.succ, fun i => hxs i.succ, rfl⟩,
        by simp [List.ofFn_succ, pure, Except.pure]⟩

theorem AtFault.evaluate {τ : ValueType} {r : Rule G τ} {reason : Reason}
    (h : r.AtFault g d reason) : r.evaluate g d = .error (.failure ⟨reason, d, r.info⟩) := by
  cases r with
  | variants info n candidates =>
    cases reason with
    | overflow => exact h.elim
    | noValidVariant =>
      rw [Rule.evaluate]
      split
      · rename_i i hi
        exact absurd (selected?_eq_some hi).1 (Date.not_le.2 (h i))
      · rfl
  | product info n factors =>
    cases reason with
    | noValidVariant => exact h.elim
    | overflow =>
      obtain ⟨xs, hxs, hnone⟩ := h
      have hall := collect_ofFn_eq_ok_iff.2 ⟨xs, hxs, rfl⟩
      rw [Rule.evaluate, hall]
      simp [bind, Except.bind, List.map_ofFn, Function.comp_def, hnone, Rule.info]
  | _ => exact h.elim

theorem AtFault.unique {τ : ValueType} {r : Rule G τ} {a b : Reason} (ha : r.AtFault g d a)
    (hb : r.AtFault g d b) : a = b := by
  have h := ha.evaluate.symm.trans hb.evaluate
  cases h
  rfl

/-- Whether none of several rules is at fault. -/
def Faultless (g : G) (d : Date) (rules : List (Σ σ, Rule G σ)) : Prop :=
  ∀ s ∈ rules, ∀ reason, ¬ s.2.AtFault g d reason

/-- Whether a failure is that of the first among several rules that is at fault. -/
def FirstFault (g : G) (d : Date) (rules : List (Σ σ, Rule G σ)) (f : Failure) : Prop :=
  ∃ before s after reason, rules = before ++ s :: after ∧ Faultless g d before ∧
    s.2.AtFault g d reason ∧ f = ⟨reason, d, s.2.info⟩

section Order

variable {rules more : List (Σ σ, Rule G σ)} {f f' : Failure}

theorem Faultless.append (h : Faultless g d rules) (h' : Faultless g d more) :
    Faultless g d (rules ++ more) :=
  fun s hs => (List.mem_append.1 hs).elim (h s) (h' s)

theorem FirstFault.append (h : FirstFault g d rules f) : FirstFault g d (rules ++ more) f := by
  obtain ⟨before, s, after, reason, rfl, h⟩ := h
  exact ⟨before, s, after ++ more, reason, by simp, h⟩

theorem Faultless.firstFault_append (h : Faultless g d rules) (hf : FirstFault g d more f) :
    FirstFault g d (rules ++ more) f := by
  obtain ⟨before, s, after, reason, rfl, hb, hf⟩ := hf
  exact ⟨rules ++ before, s, after, reason, by simp, h.append hb, hf⟩

theorem FirstFault.exists_mem (h : FirstFault g d rules f) :
    ∃ s ∈ rules, s.2.AtFault g d f.reason ∧ f.rule = s.2.info := by
  obtain ⟨before, s, after, reason, rfl, -, hs, rfl⟩ := h
  exact ⟨s, by simp, hs, rfl⟩

/-- Of two first parts, the longer one would hold the rule at fault that ends the shorter one. -/
theorem FirstFault.unique (h : FirstFault g d rules f) (h' : FirstFault g d rules f') : f = f' := by
  obtain ⟨before, s, after, reason, rfl, hb, hs, rfl⟩ := h
  obtain ⟨before', s', after', reason', heq, hb', hs', rfl⟩ := h'
  rcases List.append_eq_append_iff.1 heq with ⟨us, rfl, hus⟩ | ⟨us, rfl, hus⟩ <;>
    rcases us with _ | ⟨u, us⟩ <;>
    simp only [List.nil_append, List.cons_append, List.cons.injEq] at hus
  · obtain ⟨rfl, -⟩ := hus
    rw [hs.unique hs']
  · obtain ⟨rfl, -⟩ := hus
    exact absurd hs (hb' s (by simp) reason)
  · obtain ⟨rfl, -⟩ := hus
    rw [hs.unique hs']
  · obtain ⟨rfl, -⟩ := hus
    exact absurd hs' (hb s' (by simp) reason')

end Order

/-- Whether a computation ends as the faults of some rules, in their order, make it end. The
overflow of a combining function is not a fault of any rule. -/
def Accords (g : G) (d : Date) {α : Type} (rules : List (Σ σ, Rule G σ)) : Except Stop α → Prop
  | .ok _ => Faultless g d rules
  | .error (.failure f) => FirstFault g d rules f
  | .error (.overflow _) => True

section Accords

variable {rules more : List (Σ σ, Rule G σ)} {α β : Type}

theorem Accords.bind {x : Except Stop α} {k : α → Except Stop β} (hx : Accords g d rules x)
    (hk : ∀ a, x = .ok a → Accords g d more (k a)) : Accords g d (rules ++ more) (x >>= k) := by
  rcases x with (f | o) | a
  · exact FirstFault.append hx
  · trivial
  · show Accords g d (rules ++ more) (k a)
    rcases hka : k a with (f | o) | b <;> have h := hk a rfl <;> rw [hka] at h
    · exact Faultless.firstFault_append hx h
    · trivial
    · exact Faultless.append hx h

theorem accords_collect {rs : List (List (Σ σ, Rule G σ))} {xs : List (Except Stop α)}
    (h : List.Forall₂ (Accords g d) rs xs) : Accords g d rs.flatten (collect xs) := by
  induction h with
  | nil => exact fun _ hs => by simp at hs
  | @cons _ _ _ xs hx _ ih =>
    rw [List.flatten_cons, collect]
    refine hx.bind fun a _ => ?_
    rcases hrest : collect xs with (f | o) | as <;> rw [hrest] at ih <;> exact ih

theorem accords_singleton {τ : ValueType} {r : Rule G τ} (h : ∀ reason, ¬ r.AtFault g d reason)
    (a : α) : Accords g d [⟨τ, r⟩] (.ok a : Except Stop α) := by
  intro s hs
  rw [List.mem_singleton.1 hs]
  exact h

theorem accords_applied {τ σ : ValueType} {r : Rule G τ} (h : ∀ reason, ¬ r.AtFault g d reason)
    (info : RuleInfo) (children : List Node) (value : Except Decimal.Overflow σ.Carrier) :
    Accords g d [⟨τ, r⟩] (applied info children value) := by
  rcases value with o | v
  · trivial
  · exact accords_singleton h _

theorem AtFault.accords {τ : ValueType} {r : Rule G τ} {reason : Reason}
    (h : r.AtFault g d reason) :
    Accords g d [⟨τ, r⟩] (.error (.failure ⟨reason, d, r.info⟩) : Except Stop α) :=
  ⟨[], ⟨τ, r⟩, [], reason, rfl, fun _ hs => by simp at hs, h, rfl⟩

end Accords

/-- An evaluation ends as the faults of the rules at work make it end. -/
theorem accords_evaluate (g : G) (d : Date) : ∀ {τ : ValueType} (r : Rule G τ),
    Accords g d (r.postorder d) (r.evaluate g d)
  | _, constant _ _ | _, extract _ _ | _, extractAt _ _ =>
    accords_singleton (by exact fun _ => id) _
  | _, combine1 info a f =>
    (accords_evaluate g d a).bind fun _ _ => accords_applied (by exact fun _ => id) ..
  | _, combine2 info a b f => by
    rw [postorder, List.append_assoc]
    exact (accords_evaluate g d a).bind fun _ _ => (accords_evaluate g d b).bind fun _ _ =>
      accords_applied (by exact fun _ => id) ..
  | _, combine3 info a b c f => by
    rw [postorder, List.append_assoc, List.append_assoc]
    exact (accords_evaluate g d a).bind fun _ _ => (accords_evaluate g d b).bind fun _ _ =>
      (accords_evaluate g d c).bind fun _ _ => accords_applied (by exact fun _ => id) ..
  | _, product info n factors => by
    have hf : List.Forall₂ (Accords g d) (List.ofFn fun i => (factors i).postorder d)
        (List.ofFn fun i => (factors i).evaluate g d) := by
      rw [List.forall₂_iff_get]
      refine ⟨by simp, fun i _ _ => ?_⟩
      simpa using accords_evaluate g d (factors _)
    refine (accords_collect hf).bind fun xs hxs => ?_
    obtain ⟨ys, hys, rfl⟩ := collect_ofFn_eq_ok_iff.1 hxs
    rw [List.map_ofFn]
    rcases hp : Decimal.product (List.ofFn fun i => (ys i).value) with _ | v
    · have hfault : (product info n factors).AtFault g d .overflow := ⟨ys, hys, hp⟩
      simp only [Function.comp_def, hp]
      exact hfault.accords
    · simp only [Function.comp_def, hp]
      refine accords_singleton ?_ _
      rintro (_ | _) h
      · exact h
      · obtain ⟨zs, hzs, hnone⟩ := h
        have hyz : ys = zs := funext fun i => Except.ok.inj ((hys i).symm.trans (hzs i))
        rw [hyz, hnone] at hp
        cases hp
  | _, variants info n candidates => by
    rw [postorder, evaluate]
    rcases hs : selected? (fun i => (candidates i).validFrom) d with _ | i
    · have hfault : (variants info n candidates).AtFault g d .noValidVariant :=
        forall_lt_of_selected? hs
      exact hfault.accords
    · refine (accords_evaluate g d (candidates i)).bind fun x _ => accords_singleton ?_ _
      rintro (_ | _) h
      · exact absurd (selected?_eq_some hs).1 (Date.not_le.2 (h i))
      · exact h

/-- A total rule fails on a date if and only if a rule at work is at fault: a choice without a valid
candidate, or a product of values that is no decimal. The failure is that of the first one at fault,
the very one with which this rule fails by itself. -/
theorem failure_of_evaluate {τ : ValueType} {r : Rule G τ} (hr : r.Built) (ht : r.Total) (g : G)
    (d : Date) :
    (r.postorder d).map (fun s => (s.2.info, s.2.kind)) = (r.graph.resolve d).postorder ∧
    ((∃ stop, r.evaluate g d = .error stop) ↔
      ∃ s ∈ r.postorder d, ∃ reason, s.2.AtFault g d reason) ∧
    (∀ stop, r.evaluate g d = .error stop ↔
      ∃ f, stop = .failure f ∧ FirstFault g d (r.postorder d) f) ∧
    ∀ s ∈ r.postorder d, ∀ reason, s.2.AtFault g d reason →
      s.2.evaluate g d = .error (.failure ⟨reason, d, s.2.info⟩) := by
  have hends := accords_evaluate g d r
  refine ⟨map_postorder r hr.wellFormed, ⟨?_, ?_⟩, fun stop => ⟨?_, ?_⟩,
    fun s _ reason h => h.evaluate⟩
  · rintro ⟨f | o, h⟩ <;> rw [h] at hends
    · obtain ⟨s, hs, hfault, -⟩ := hends.exists_mem
      exact ⟨s, hs, _, hfault⟩
    · exact absurd h (sound_evaluate g d r ht o)
  · rintro ⟨s, hs, reason, hfault⟩
    rcases h : r.evaluate g d with stop | e <;> rw [h] at hends
    · exact ⟨stop, rfl⟩
    · exact absurd hfault (hends s hs reason)
  · intro h
    rw [h] at hends
    rcases stop with f | o
    · exact ⟨f, rfl, hends⟩
    · exact absurd h (sound_evaluate g d r ht o)
  · rintro ⟨f, rfl, hf⟩
    rcases h : r.evaluate g d with (f' | o) | e <;> rw [h] at hends
    · rw [FirstFault.unique hends hf]
    · exact absurd h (sound_evaluate g d r ht o)
    · obtain ⟨s, hs, hfault, -⟩ := hf.exists_mem
      exact absurd hfault (hends s hs _)

end Rule

namespace Reconciliation

/-- Two factors whose product is no decimal. -/
def hugeFactors : List (Rule Basis .decimal) := [
  .constant (about "BELOEP" "Beløp") (.ofNat (2 ^ 60)),
  .constant (about "ANTALL" "Antall") (.ofNat (2 ^ 60))]

def hugeTotal : Rule Basis .decimal :=
  .product (about "SUM" "Beløp ganger antall") hugeFactors.length hugeFactors.get

/-- A product that is always at fault, and after it a choice that is at fault before 2023. -/
def hugeTotalOrFee : Rule Basis .decimal :=
  .combine2 (about "STOERST" "Det største av sum og rettsgebyr") hugeTotal courtFee
    fun total fee => .ok (total.max fee)

theorem hugeTotalOrFee_built : hugeTotalOrFee.Built := by
  refine .combine2 _ _ (.multiply (fun a (ha : a ∈ hugeFactors) => ?_) rfl) courtFee_built
  simp only [hugeFactors, List.mem_cons, List.not_mem_nil, or_false] at ha
  rcases ha with rfl | rfl <;> exact .constant _ _

theorem hugeTotalOrFee_total : hugeTotalOrFee.Total :=
  ⟨fun i => match i with | ⟨0, _⟩ | ⟨1, _⟩ => trivial, aboveCourtFee_total.1, fun _ _ => ⟨_, rfl⟩⟩

end Reconciliation

open Reconciliation in
theorem Rule.failure_of_evaluate_hugeTotalOrFee : hugeTotalOrFee.Built ∧ hugeTotalOrFee.Total ∧
    courtFee.AtFault raisedBasis (newYear 2022) .noValidVariant ∧
    hugeTotalOrFee.evaluate raisedBasis (newYear 2022) =
      .error (.failure ⟨.overflow, newYear 2022, hugeTotal.info⟩) ∧
    ∃ s ∈ hugeTotalOrFee.postorder (newYear 2022), ∃ reason,
      s.2.AtFault raisedBasis (newYear 2022) reason := by
  have hfail : hugeTotalOrFee.evaluate raisedBasis (newYear 2022) =
      .error (.failure ⟨.overflow, newYear 2022, hugeTotal.info⟩) := rfl
  refine ⟨hugeTotalOrFee_built, hugeTotalOrFee_total, ?_, hfail, ?_⟩
  · exact (by decide : ∀ i, newYear 2022 < (courtFees.get i).validFrom)
  · exact (failure_of_evaluate hugeTotalOrFee_built hugeTotalOrFee_total _ _).2.1.1 ⟨_, hfail⟩

end DatedRules
