import DatedRules.Proofs.Definition
import DatedRules.Proofs.Pointwise
import DatedRules.Proofs.Resolution

/-!
# What an explanation explains

The explanation of a value is the graph of the rule, resolved on the date, with facts as its leaves.
`Rule.explains_of_evaluate` says so for one rule and the rules directly below it: a leaf rule has
its fact as its only child, any other rule has the results of the rules below it, in their order.

By induction on the rules below, the explanation without its facts is the resolved graph
(`Rule.skeleton_of_evaluate`). By induction on paths, each rule of the explanation stands where the
rule that it tells of stands among the rules below (`Rule.at?_of_evaluate`,
`Rule.exists_explains_of_at?`). Depth and references do not look at facts, so that they are those of
the resolved graph (`Rule.explanation_of_evaluate`).
-/

namespace DatedRules

/-- Whether rules of this kind take their value from a fact. -/
def Kind.IsLeaf : Kind → Prop
  | constant | extract | extractAt => True
  | combine | multiply | latestValidVariant => False

namespace Graph

theorem heightAll_append : ∀ gs hs : List Graph,
    heightAll (gs ++ hs) = max (heightAll gs) (heightAll hs)
  | [], hs => by simp [heightAll]
  | g :: gs, hs => by
    simp only [List.cons_append, heightAll, heightAll_append gs hs]
    exact (max_assoc _ _ _).symm

end Graph

namespace Node

def children : Node → List Node
  | fact _ _ _ => []
  | rule _ _ _ children => children

def IsRule : Node → Prop
  | fact _ _ _ => False
  | rule _ _ _ _ => True

/-- The tree at the end of a path. -/
def at? : List Nat → Node → Option Node
  | [], n => some n
  | i :: path, n => n.children[i]?.bind (at? path)

def Label.reference? : Label → Option Reference
  | .fact _ _ _ => none
  | .rule info _ _ => some info.reference

mutual

/-- The graph of the rules in a tree, without the facts. A fact by itself leaves none. -/
def ruleGraphs : Node → List Graph
  | fact _ _ _ => []
  | rule info kind _ children => [.node info kind (ruleGraphsAll children)]

def ruleGraphsAll : List Node → List Graph
  | [] => []
  | n :: ns => ruleGraphs n ++ ruleGraphsAll ns

end

mutual

theorem heightAll_ruleGraphs : ∀ n : Node, Graph.heightAll n.ruleGraphs = n.height
  | fact _ _ _ => rfl
  | rule info kind value children => by
    simp only [ruleGraphs, Graph.heightAll, Graph.height, height,
      heightAll_ruleGraphsAll children, Nat.max_zero]

theorem heightAll_ruleGraphsAll : ∀ ns : List Node,
    Graph.heightAll (ruleGraphsAll ns) = heightAll ns
  | [] => rfl
  | n :: ns => by
    simp only [ruleGraphsAll, Graph.heightAll_append, heightAll, heightAll_ruleGraphs n,
      heightAll_ruleGraphsAll ns]

end

mutual

theorem references_ruleGraphs (k : Nat) : ∀ n : Node,
    (Graph.visitsAll k n.ruleGraphs).map (·.info.reference) =
      (n.visits k).filterMap (·.2.reference?)
  | fact _ _ _ => rfl
  | rule info kind value children => by
    simp only [ruleGraphs, Graph.visitsAll, Graph.visits, visits, List.append_nil, List.map_cons,
      List.filterMap_cons, Label.reference?, references_ruleGraphsAll (k + 1) children]

theorem references_ruleGraphsAll (k : Nat) : ∀ ns : List Node,
    (Graph.visitsAll k (ruleGraphsAll ns)).map (·.info.reference) =
      (visitsAll k ns).filterMap (·.2.reference?)
  | [] => rfl
  | n :: ns => by
    simp only [ruleGraphsAll, Graph.visitsAll_append, visitsAll, List.map_append,
      List.filterMap_append, references_ruleGraphs k n, references_ruleGraphsAll k ns]

end

theorem ruleGraphsAll_of_forall₂ {α : Type*} {f : α → Graph} : ∀ {xs : List α} {ns : List Node},
    List.Forall₂ (fun x n => n.ruleGraphs = [f x]) xs ns → ruleGraphsAll ns = xs.map f
  | [], [], .nil => rfl
  | x :: xs, n :: ns, .cons hn hns => by
    rw [ruleGraphsAll, hn, ruleGraphsAll_of_forall₂ hns, List.map_cons, List.singleton_append]

end Node

namespace Evaluated

variable {τ : ValueType}

/-- The graph of the rules that an explanation tells of. -/
def skeleton (e : Evaluated τ) : Graph := .node e.rule e.kind (Node.ruleGraphsAll e.children)

theorem ruleGraphs_toNode (e : Evaluated τ) : e.toNode.ruleGraphs = [e.skeleton] := rfl

theorem depth_eq_height (e : Evaluated τ) : e.depth = e.skeleton.height := by
  rw [depth, ← Node.heightAll_ruleGraphs, ruleGraphs_toNode]
  simp only [Graph.heightAll, Nat.max_zero]

theorem references_eq (e : Evaluated τ) : e.references = e.skeleton.references := by
  have h := Node.references_ruleGraphs 0 e.toNode
  rw [ruleGraphs_toNode, Graph.visitsAll, Graph.visitsAll, List.append_nil] at h
  exact (List.filterMap_congr fun v _ => by rcases v with ⟨k, _ | _⟩ <;> rfl).trans h.symm

end Evaluated

namespace Rule

variable {G : Type} {g : G} {d : Date}

theorem applied_eq_ok_iff {τ : ValueType} {info : RuleInfo} {children : List Node}
    {value : Except Decimal.Overflow τ.Carrier} {e : Evaluated τ} :
    applied info children value = .ok e ↔
      ∃ v, value = .ok v ∧ e = ⟨v, info, .combine, children⟩ := by
  rcases value with o | v <;> simp [applied, eq_comm]

theorem collect_eq_ok_iff {α : Type} : ∀ {xs : List (Except Stop α)} {as : List α},
    collect xs = .ok as ↔ List.Forall₂ (fun x a => x = .ok a) xs as
  | [], as => by cases as <;> simp [collect]
  | x :: xs, as => by
    have ih := @collect_eq_ok_iff α xs
    simp only [collect, bind_eq_ok_iff, ih, List.forall₂_cons_left_iff]
    constructor
    · rintro ⟨a, ha, as', has, h⟩
      exact ⟨a, as', ha, has, (Except.ok.inj h).symm⟩
    · rintro ⟨a, as', ha, has, rfl⟩
      exact ⟨a, ha, as', has, rfl⟩

/-- What the explanation of a value tells of the rule itself, on the results of the rules directly
below it. -/
structure Explains (g : G) (d : Date) {τ : ValueType} (r : Rule G τ) (e : Evaluated τ) : Prop where
  rule : e.rule = r.info
  kind : e.kind = r.kind
  leaf : r.kind.IsLeaf → r.inputs d = [] ∧
    ∃ source description, e.children = [.fact (τ.render e.value) source description]
  inner : ¬ r.kind.IsLeaf → r.inputs d ≠ [] ∧
    List.Forall₂ (fun s n => ∃ x, s.2.evaluate g d = .ok x ∧ n = x.toNode) (r.inputs d) e.children

theorem explains_of_evaluate {τ : ValueType} {r : Rule G τ} (hr : r.WellFormed) {e : Evaluated τ}
    (h : r.evaluate g d = .ok e) : r.Explains g d e := by
  cases r with
  | constant | extract | extractAt =>
    simp only [evaluate, Except.ok.injEq] at h
    subst h
    exact ⟨rfl, rfl, fun _ => ⟨rfl, _, _, rfl⟩, fun hk => absurd trivial hk⟩
  | combine1 info a f =>
    simp only [evaluate, bind_eq_ok_iff, applied_eq_ok_iff] at h
    obtain ⟨x, hx, v, -, rfl⟩ := h
    exact ⟨rfl, rfl, False.elim, fun _ => ⟨List.cons_ne_nil _ _, .cons ⟨x, hx, rfl⟩ .nil⟩⟩
  | combine2 info a b f =>
    simp only [evaluate, bind_eq_ok_iff, applied_eq_ok_iff] at h
    obtain ⟨x, hx, y, hy, v, -, rfl⟩ := h
    exact ⟨rfl, rfl, False.elim,
      fun _ => ⟨List.cons_ne_nil _ _, .cons ⟨x, hx, rfl⟩ (.cons ⟨y, hy, rfl⟩ .nil)⟩⟩
  | combine3 info a b c f =>
    simp only [evaluate, bind_eq_ok_iff, applied_eq_ok_iff] at h
    obtain ⟨x, hx, y, hy, z, hz, v, -, rfl⟩ := h
    exact ⟨rfl, rfl, False.elim, fun _ => ⟨List.cons_ne_nil _ _,
      .cons ⟨x, hx, rfl⟩ (.cons ⟨y, hy, rfl⟩ (.cons ⟨z, hz, rfl⟩ .nil))⟩⟩
  | product info n factors =>
    simp only [evaluate, bind_eq_ok_iff, collect_eq_ok_iff] at h
    obtain ⟨xs, hxs, h⟩ := h
    split at h
    · cases h
      refine ⟨rfl, rfl, False.elim, fun _ => ⟨?_, ?_⟩⟩
      · have hn : 2 ≤ n := hr.1
        simp only [inputs, ne_eq, List.ofFn_eq_nil_iff]
        omega
      · rw [← Function.comp_def (fun a : Rule G .decimal => a.evaluate g d), ← List.map_ofFn,
          List.forall₂_map_left_iff] at hxs
        rw [inputs, ← Function.comp_def (Sigma.mk ValueType.decimal), ← List.map_ofFn,
          List.forall₂_map_left_iff, List.forall₂_map_right_iff]
        exact hxs.imp fun a x hx => ⟨x, hx, rfl⟩
    · cases h
  | variants info n candidates =>
    simp only [evaluate] at h
    split at h
    · rename_i i hi
      rw [bind_eq_ok_iff] at h
      obtain ⟨x, hx, h⟩ := h
      cases h
      have hl := latest?_of_selected? hr.2.1 hi
      refine ⟨rfl, rfl, False.elim, fun _ => ?_⟩
      simp only [inputs, hl]
      exact ⟨List.cons_ne_nil _ _, .cons ⟨x, hx, rfl⟩ .nil⟩
    · cases h

theorem Explains.ruleGraphsAll {τ : ValueType} {r : Rule G τ} {e : Evaluated τ}
    (h : r.Explains g d e) {f : (Σ σ, Rule G σ) → Graph}
    (hf : ∀ s ∈ r.inputs d, ∀ x, s.2.evaluate g d = .ok x → x.skeleton = f s) :
    Node.ruleGraphsAll e.children = (r.inputs d).map f := by
  by_cases hk : r.kind.IsLeaf
  · obtain ⟨hnil, source, description, hc⟩ := h.leaf hk
    rw [hnil, hc]
    rfl
  · have hm := (List.forall₂_and_left _ _).2 ⟨fun s hs => hs, (h.inner hk).2⟩
    refine Node.ruleGraphsAll_of_forall₂ (hm.imp ?_)
    rintro s n ⟨hs, x, hx, rfl⟩
    rw [Evaluated.ruleGraphs_toNode, hf s hs x hx]

/-- An explanation tells of the rules of the resolved graph, and of no others. -/
theorem skeleton_of_evaluate {τ : ValueType} (r : Rule G τ) : ∀ {e : Evaluated τ}, r.WellFormed →
    r.evaluate g d = .ok e → e.skeleton = r.graph.resolve d := by
  induction r using inputs_induction d with
  | step r ih =>
    intro e hr h
    have he := explains_of_evaluate hr h
    rw [Evaluated.skeleton, he.rule, he.kind, resolve_graph,
      he.ruleGraphsAll fun s hs x hx => ih s hs (hr.of_mem_inputs hs) hx]

theorem Explains.exists_child {τ : ValueType} {r : Rule G τ} {e : Evaluated τ}
    (h : r.Explains g d e) {i : Nat} {s : Σ σ, Rule G σ} (hs : (r.inputs d)[i]? = some s) :
    ∃ x, s.2.evaluate g d = .ok x ∧ e.children[i]? = some x.toNode := by
  by_cases hk : r.kind.IsLeaf
  · rw [(h.leaf hk).1] at hs
    cases hs
  · obtain ⟨n, hn, x, hx, rfl⟩ := exists_getElem?_of_forall₂ (h.inner hk).2 hs
    exact ⟨x, hx, hn⟩

theorem Explains.exists_input {τ : ValueType} {r : Rule G τ} {e : Evaluated τ}
    (h : r.Explains g d e) {i : Nat} {n : Node} (hn : e.children[i]? = some n) :
    (∃ value source description, n = .fact value source description) ∨ ∃ s x,
      (r.inputs d)[i]? = some s ∧ s.2.evaluate g d = .ok x ∧ n = x.toNode := by
  by_cases hk : r.kind.IsLeaf
  · obtain ⟨-, source, description, hc⟩ := h.leaf hk
    rw [hc] at hn
    exact .inl ⟨_, source, description, List.mem_singleton.1 (List.mem_of_getElem? hn)⟩
  · obtain ⟨s, hs, x, hx, rfl⟩ := exists_getElem?_of_forall₂ (h.inner hk).2.flip hn
    exact .inr ⟨s, x, hs, hx, rfl⟩

/-- Where a rule stands among the rules below, its result stands in the explanation. -/
theorem at?_of_evaluate {s : Σ σ, Rule G σ} : ∀ (path : List Nat) {τ : ValueType} {r : Rule G τ}
    {e : Evaluated τ}, r.WellFormed → r.evaluate g d = .ok e → r.at? d path = some s →
      ∃ x, s.2.evaluate g d = .ok x ∧ e.toNode.at? path = some x.toNode
  | [], τ, r, e, hr, h, hs => by
    rw [at?] at hs
    cases hs
    exact ⟨e, h, rfl⟩
  | i :: path, τ, r, e, hr, h, hs => by
    rw [at?, Option.bind_eq_some_iff] at hs
    obtain ⟨s', hs', hs⟩ := hs
    obtain ⟨y, hy, hc⟩ := (explains_of_evaluate hr h).exists_child hs'
    obtain ⟨x, hx, hat⟩ := at?_of_evaluate path (hr.of_mem_inputs (List.mem_of_getElem? hs')) hy hs
    refine ⟨x, hx, ?_⟩
    rw [Node.at?, Evaluated.toNode, Node.children, hc, Option.bind_some, hat]

/-- Where the explanation has the result of a rule, that rule stands among the rules below. A fact
is no rule and has nothing below it. -/
theorem exists_explains_of_at? {n : Node} (hn : n.IsRule) : ∀ (path : List Nat) {τ : ValueType}
    {r : Rule G τ} {e : Evaluated τ}, r.WellFormed → r.evaluate g d = .ok e →
      e.toNode.at? path = some n → ∃ s x, r.at? d path = some s ∧ s.2.evaluate g d = .ok x ∧
        n = x.toNode ∧ s.2.Explains g d x
  | [], τ, r, e, hr, h, hat => by
    rw [Node.at?] at hat
    cases hat
    exact ⟨⟨τ, r⟩, e, rfl, h, rfl, explains_of_evaluate hr h⟩
  | i :: path, τ, r, e, hr, h, hat => by
    rw [Node.at?, Option.bind_eq_some_iff] at hat
    obtain ⟨m, hm, hat⟩ := hat
    rcases (explains_of_evaluate hr h).exists_input hm with ⟨v, source, description, rfl⟩ |
      ⟨s', x', hs', hx', rfl⟩
    · rcases path with _ | ⟨j, path⟩
      · rw [Node.at?] at hat
        cases hat
        exact hn.elim
      · simp [Node.at?, Node.children] at hat
    · obtain ⟨s, x, hs, hx⟩ :=
        exists_explains_of_at? hn path (hr.of_mem_inputs (List.mem_of_getElem? hs')) hx' hat
      exact ⟨s, x, by rw [at?, hs', Option.bind_some, hs], hx⟩

theorem Explains.isRule_of_mem {τ : ValueType} {r : Rule G τ} {e : Evaluated τ}
    (h : r.Explains g d e) (hk : ¬ r.kind.IsLeaf) {n : Node} (hn : n ∈ e.children) : n.IsRule := by
  obtain ⟨s, -, x, -, rfl⟩ := exists_of_forall₂_of_mem (h.inner hk).2 hn
  trivial

theorem Explains.children_ne_nil {τ : ValueType} {r : Rule G τ} {e : Evaluated τ}
    (h : r.Explains g d e) : e.children ≠ [] := by
  by_cases hk : r.kind.IsLeaf
  · obtain ⟨-, source, description, hc⟩ := h.leaf hk
    rw [hc]
    exact List.cons_ne_nil _ _
  · obtain ⟨hne, hf⟩ := h.inner hk
    exact fun hc => hne (List.forall₂_nil_right_iff.1 (hc ▸ hf))

/-- The explanation of a value tells of the resolved graph. At every path of it the result of a rule
is that of the rule evaluated by itself; it has one fact, of the value's own text, if the rule is a
leaf, and otherwise results of rules, one at least. -/
theorem explanation_of_evaluate {τ : ValueType} {r : Rule G τ} (hr : r.Built) {e : Evaluated τ}
    (h : r.evaluate g d = .ok e) :
    e.skeleton = r.graph.resolve d ∧
    (∀ path s, r.at? d path = some s →
      ∃ x, s.2.evaluate g d = .ok x ∧ e.toNode.at? path = some x.toNode) ∧
    (∀ path info kind value children, e.toNode.at? path = some (.rule info kind value children) →
      (∃ s x, r.at? d path = some s ∧ s.2.evaluate g d = .ok x ∧
        info = s.2.info ∧ kind = s.2.kind ∧ value = s.1.render x.value) ∧
      (kind.IsLeaf → ∃ source description, children = [.fact value source description]) ∧
      (¬ kind.IsLeaf → children ≠ [] ∧ ∀ n ∈ children, n.IsRule)) ∧
    (∀ path n, e.toNode.at? path = some n → n.children = [] → ¬ n.IsRule) ∧
    e.depth = (r.graph.resolve d).height ∧ e.references = (r.graph.resolve d).references := by
  have hskel := skeleton_of_evaluate r hr.wellFormed h
  refine ⟨hskel, fun path s hs => at?_of_evaluate path hr.wellFormed h hs, ?_, ?_, ?_, ?_⟩
  · intro path info kind value children hat
    have hn : (Node.rule info kind value children).IsRule := trivial
    obtain ⟨s, x, hs, hx, hnx, hex⟩ := exists_explains_of_at? hn path hr.wellFormed h hat
    obtain ⟨rfl, rfl, rfl, rfl⟩ := Node.rule.inj hnx
    refine ⟨⟨s, x, hs, hx, hex.rule, hex.kind, rfl⟩, fun hk => ?_, fun hk => ?_⟩
    · rw [hex.kind] at hk
      exact (hex.leaf hk).2
    · rw [hex.kind] at hk
      exact ⟨hex.children_ne_nil, fun n hn => hex.isRule_of_mem hk hn⟩
  · rintro path n hat hnil hn
    obtain ⟨s, x, -, -, rfl, hex⟩ := exists_explains_of_at? hn path hr.wellFormed h hat
    exact hex.children_ne_nil hnil
  · rw [e.depth_eq_height, hskel]
  · rw [e.references_eq, hskel]

end Rule

namespace Reconciliation

theorem courtFees_latestValidVariant : Rule.latestValidVariant (about "RETTSGEBYR"
    "Gjeldende rettsgebyr") courtFees = .ok courtFee := by
  have hs : Rule.inOrder courtFees = courtFees := List.mergeSort_of_pairwise (by decide)
  rw [Rule.latestValidVariant, if_neg (by decide), hs]
  rfl

theorem courtFee_built : courtFee.Built := by
  refine .latestValidVariant (fun a ha => ?_) courtFees_latestValidVariant
  simp only [courtFees, List.mem_cons, List.not_mem_nil, or_false] at ha
  rcases ha with rfl | rfl | rfl <;> exact .constant _ _

theorem limitRule_built : limitRule.Built := by
  refine .multiply (fun a (ha : a ∈ limitFactors) => ?_) rfl
  simp only [limitFactors, List.mem_cons, List.not_mem_nil, or_false] at ha
  rcases ha with rfl | rfl
  · exact courtFee_built
  · exact .constant _ _

theorem rule_built : rule.Built :=
  .combine3 _ _ (.combine2 _ _ (.extractAt _ _) (.combine2 _ _ (.extractAt _ _) (.extract _ _)))
    courtFee_built limitRule_built

end Reconciliation

open Reconciliation in
theorem Rule.explanation_of_evaluate_rule : rule.Built ∧ ∃ e,
    rule.evaluate raisedBasis (newYear 2024) = .ok e ∧ e.depth = 4 ∧
      e.references.map (·.id) = ["ETTEROPPGJOER-RESULTAT", "DIFFERANSE", "UTBETALT", "NY-YTELSE",
        "BRUTTO", "AVKORTING", "RETTSGEBYR", "RETTSGEBYR-2024", "TERSKEL-ETTERBETALING",
        "RETTSGEBYR", "RETTSGEBYR-2024", "ANDEL-ETTERBETALING"] := by
  have hok : (rule.evaluate raisedBasis (newYear 2024)).toOption.isSome = true := rfl
  rcases h : rule.evaluate raisedBasis (newYear 2024) with stop | e
  · rw [h] at hok
    cases hok
  · obtain ⟨-, -, -, -, hdepth, hrefs⟩ := explanation_of_evaluate rule_built h
    refine ⟨rule_built, e, rfl, hdepth.trans rfl, ?_⟩
    rw [hrefs]
    rfl

end DatedRules
