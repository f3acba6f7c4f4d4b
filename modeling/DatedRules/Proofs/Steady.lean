import DatedRules.Proofs.Sequences
import DatedRules.Proofs.Tiling
import DatedRules.Run

/-!
# Evaluation between breakpoints

An evaluation sees of its basis and date only the facts that it reads and the variants that it may
select. Where two agree in both (`Rule.Alike`) their evaluations have the same value, or stop in the
same way but for the date that a failure carries (`Rule.evaluate_alike`).

On one basis that is steady where the rule reads it (`Rule.SteadyOn`), two dates agree in this way
if no date after the first, up to the second, is a breakpoint (`Rule.alike_of_quiet`). So on a piece
of the rule's own partition every date evaluates as the first one does
(`Rule.evaluate_of_mem_piece`).
-/

namespace DatedRules

/-- The same stop on another date. -/
def Stop.redate (date : Date) : Stop → Stop
  | .failure f => .failure { f with date }
  | .overflow o => .overflow o

namespace Graph

mutual

theorem visits_map_info (j k : Nat) : ∀ g : Graph,
    (g.visits j).map (·.info) = (g.visits k).map (·.info)
  | node info kind children => by
    simp only [visits, List.map_cons, visitsAll_map_info (j + 1) (k + 1) children]

theorem visitsAll_map_info (j k : Nat) : ∀ gs : List Graph,
    (visitsAll j gs).map (·.info) = (visitsAll k gs).map (·.info)
  | [] => rfl
  | g :: gs => by
    simp only [visitsAll, List.map_append, visits_map_info j k g, visitsAll_map_info j k gs]

end

theorem visitsAll_eq_flatMap (k : Nat) : ∀ gs : List Graph, visitsAll k gs = gs.flatMap (visits k)
  | [] => rfl
  | g :: gs => by rw [visitsAll, visitsAll_eq_flatMap k gs, List.flatMap_cons]

theorem visitsAll_append (k : Nat) (gs hs : List Graph) :
    visitsAll k (gs ++ hs) = visitsAll k gs ++ visitsAll k hs := by
  simp only [visitsAll_eq_flatMap, List.flatMap_append]

theorem mem_breakpoints_node {info : RuleInfo} {kind : Kind} {children : List Graph} {b : Date} :
    b ∈ (node info kind children).breakpoints ↔
      b = info.validFrom ∨ ∃ c ∈ children, b ∈ c.breakpoints := by
  have h : ∀ c : Graph, b ∈ c.breakpoints ↔ b ∈ ((c.visits 1).map (·.info)).map (·.validFrom) := by
    intro c
    rw [breakpoints, DateSet.mem_ofList, preorder, visits_map_info 1 0 c, List.map_map]
    rfl
  simp only [h, visits_map_info 1 0 (node info kind children)]
  simp only [visits, visitsAll_eq_flatMap, List.map_cons, List.map_flatMap, List.mem_cons,
    List.mem_flatMap, Nat.zero_add]

theorem mem_breakpoints_of_child {c g : Graph} (hc : c ∈ g.children) {b : Date}
    (hb : b ∈ c.breakpoints) : b ∈ g.breakpoints := by
  cases g
  exact mem_breakpoints_node.2 (.inr ⟨c, hc, hb⟩)

end Graph

namespace Rule

variable {G : Type}

/-- Whether a rule reads the same facts, and has the same variants to select from, on two bases and
dates. -/
def Alike (g₁ : G) (d₁ : Date) (g₂ : G) (d₂ : Date) : {τ : ValueType} → Rule G τ → Prop
  | _, constant _ _ => True
  | _, extract _ read => read g₁ = read g₂
  | _, extractAt _ read => (read g₁).on d₁ = (read g₂).on d₂
  | _, combine1 _ a _ => a.Alike g₁ d₁ g₂ d₂
  | _, combine2 _ a b _ => a.Alike g₁ d₁ g₂ d₂ ∧ b.Alike g₁ d₁ g₂ d₂
  | _, combine3 _ a b c _ => a.Alike g₁ d₁ g₂ d₂ ∧ b.Alike g₁ d₁ g₂ d₂ ∧ c.Alike g₁ d₁ g₂ d₂
  | _, product _ _ factors => ∀ i, (factors i).Alike g₁ d₁ g₂ d₂
  | _, variants _ _ candidates =>
    ∀ i, ((candidates i).validFrom ≤ d₁ ↔ (candidates i).validFrom ≤ d₂) ∧
      (candidates i).Alike g₁ d₁ g₂ d₂

theorem alike_refl (g : G) (d : Date) : ∀ {τ : ValueType} (r : Rule G τ), r.Alike g d g d
  | _, constant _ _ => trivial
  | _, extract _ _ => rfl
  | _, extractAt _ _ => rfl
  | _, combine1 _ a _ => a.alike_refl g d
  | _, combine2 _ a b _ => ⟨a.alike_refl g d, b.alike_refl g d⟩
  | _, combine3 _ a b c _ => ⟨a.alike_refl g d, b.alike_refl g d, c.alike_refl g d⟩
  | _, product _ _ factors => fun i => (factors i).alike_refl g d
  | _, variants _ _ candidates => fun i => ⟨Iff.rfl, (candidates i).alike_refl g d⟩

theorem applied_mapError {τ : ValueType} (d : Date) (info : RuleInfo) (children : List Node)
    (value : Except Decimal.Overflow τ.Carrier) :
    (applied info children value).mapError (.redate d) = applied info children value := by
  cases value <;> rfl

theorem collect_map_mapError {α : Type} (h : Stop → Stop) : ∀ xs : List (Except Stop α),
    collect (xs.map (Except.mapError h)) = (collect xs).mapError h
  | [] => rfl
  | x :: xs => by
    simp only [List.map_cons, collect, mapError_bind, collect_map_mapError h xs]
    rfl

theorem selected?_congr {n : Nat} {validFrom : Fin n → Date} {d₁ d₂ : Date}
    (h : ∀ i, validFrom i ≤ d₁ ↔ validFrom i ≤ d₂) :
    selected? validFrom d₁ = selected? validFrom d₂ := by
  simp only [selected?, h]

/-- Evaluations that read and select alike end alike. -/
theorem evaluate_alike {g₁ g₂ : G} {d₁ d₂ : Date} : ∀ {τ : ValueType} (r : Rule G τ),
    r.Alike g₁ d₁ g₂ d₂ → r.evaluate g₂ d₂ = (r.evaluate g₁ d₁).mapError (.redate d₂)
  | _, constant _ _, _ => rfl
  | _, extract info read, h => by
    simp only [Alike] at h
    simp only [evaluate, h]
    rfl
  | _, extractAt info read, h => by
    simp only [Alike] at h
    simp only [evaluate, h]
    rfl
  | _, combine1 info a f, h => by
    simp only [Alike] at h
    simp only [evaluate, mapError_bind, applied_mapError, evaluate_alike a h]
  | _, combine2 info a b f, h => by
    simp only [Alike] at h
    simp only [evaluate, mapError_bind, applied_mapError, evaluate_alike a h.1,
      evaluate_alike b h.2]
  | _, combine3 info a b c f, h => by
    simp only [Alike] at h
    simp only [evaluate, mapError_bind, applied_mapError, evaluate_alike a h.1,
      evaluate_alike b h.2.1, evaluate_alike c h.2.2]
  | _, product info n factors, h => by
    simp only [Alike] at h
    have hf : (List.ofFn fun i => (factors i).evaluate g₂ d₂)
        = (List.ofFn fun i => (factors i).evaluate g₁ d₁).map (Except.mapError (.redate d₂)) := by
      rw [List.map_ofFn]
      exact congrArg List.ofFn (funext fun i => evaluate_alike (factors i) (h i))
    simp only [evaluate, mapError_bind, hf, collect_map_mapError]
    congr 1
    funext xs
    split <;> rfl
  | _, variants info n candidates, h => by
    simp only [Alike] at h
    simp only [evaluate, ← selected?_congr fun i => (h i).1]
    split
    · rename_i i _
      simp only [mapError_bind, evaluate_alike (candidates i) (h i).2]
      rfl
    · rfl

/-- A failure carries the date of the evaluation. -/
theorem date_of_evaluate {τ : ValueType} {r : Rule G τ} {g : G} {d : Date} {f : Failure}
    (h : r.evaluate g d = .error (.failure f)) : f.date = d := by
  have ha := evaluate_alike r (r.alike_refl g d)
  rw [h] at ha
  simp only [Except.mapError, Stop.redate, Except.error.injEq, Stop.failure.injEq] at ha
  rw [ha]

/-- Whether all that a rule reads for a date changes on breakpoints only. -/
def SteadyOn (g : G) : {τ : ValueType} → Rule G τ → Prop
  | _, constant _ _ | _, extract _ _ => True
  | _, extractAt _ read => (read g).Steady
  | _, combine1 _ a _ => a.SteadyOn g
  | _, combine2 _ a b _ => a.SteadyOn g ∧ b.SteadyOn g
  | _, combine3 _ a b c _ => a.SteadyOn g ∧ b.SteadyOn g ∧ c.SteadyOn g
  | _, product _ _ factors => ∀ i, (factors i).SteadyOn g
  | _, variants _ _ candidates => ∀ i, (candidates i).SteadyOn g

/-- Whether no breakpoint, of a rule or of what it reads, comes after one date, up to another. -/
def Quiet {τ : ValueType} (g : G) (d₁ d₂ : Date) (r : Rule G τ) : Prop :=
  ∀ b, b ∈ r.breakpoints ∨ b ∈ r.dataBreakpoints g → ¬ (d₁ < b ∧ b ≤ d₂)

theorem Quiet.of_child {σ τ : ValueType} {g : G} {d₁ d₂ : Date} {r : Rule G τ} {s : Rule G σ}
    (h : r.Quiet g d₁ d₂) (hc : s.graph ∈ r.graph.children)
    (hd : ∀ b ∈ s.dataDates g, b ∈ r.dataDates g) : s.Quiet g d₁ d₂ := by
  rintro b (hb | hb)
  · exact h b (.inl (Graph.mem_breakpoints_of_child hc hb))
  · rw [dataBreakpoints, DateSet.mem_ofList] at hb
    exact h b (.inr (DateSet.mem_ofList.2 (hd b hb)))

theorem validFrom_mem_breakpoints {τ : ValueType} (r : Rule G τ) : r.validFrom ∈ r.breakpoints := by
  cases r <;> exact Graph.mem_breakpoints_node.2 (.inl rfl)

/-- Between breakpoints a rule reads and selects alike: a variant that became valid there would
bring its date as a breakpoint. -/
theorem alike_of_quiet {g : G} {d₁ d₂ : Date} (hle : d₁ ≤ d₂) : ∀ {τ : ValueType} (r : Rule G τ),
    r.SteadyOn g → r.Quiet g d₁ d₂ → r.Alike g d₁ g d₂
  | _, constant _ _, _, _ => trivial
  | _, extract _ _, _, _ => rfl
  | _, extractAt info read, hs, hq => by
    refine hs d₁ d₂ hle fun b hb => hq b (.inr ?_)
    rw [dataBreakpoints, DateSet.mem_ofList]
    exact hb
  | _, combine1 info a f, hs, hq =>
    alike_of_quiet hle a hs (hq.of_child (by simp [graph, Graph.children]) fun x hx => hx)
  | _, combine2 info a b f, hs, hq => by
    refine ⟨alike_of_quiet hle a hs.1 (hq.of_child ?_ fun x hx => ?_),
      alike_of_quiet hle b hs.2 (hq.of_child ?_ fun x hx => ?_)⟩
    all_goals simp_all [graph, Graph.children, dataDates]
  | _, combine3 info a b c f, hs, hq => by
    refine ⟨alike_of_quiet hle a hs.1 (hq.of_child ?_ fun x hx => ?_),
      alike_of_quiet hle b hs.2.1 (hq.of_child ?_ fun x hx => ?_),
      alike_of_quiet hle c hs.2.2 (hq.of_child ?_ fun x hx => ?_)⟩
    all_goals simp_all [graph, Graph.children, dataDates]
  | _, product info n factors, hs, hq => fun i => by
    refine alike_of_quiet hle (factors i) (hs i) (hq.of_child ?_ fun b hb => ?_)
    · exact List.mem_ofFn.2 ⟨i, rfl⟩
    · exact mem_flatten_ofFn.2 ⟨i, hb⟩
  | _, variants info n candidates, hs, hq => fun i => by
    have hi : (candidates i).Quiet g d₁ d₂ := by
      refine hq.of_child ?_ fun b hb => ?_
      · exact List.mem_ofFn.2 ⟨i, rfl⟩
      · exact mem_flatten_ofFn.2 ⟨i, hb⟩
    refine ⟨⟨fun h => Date.le_trans h hle, fun h => ?_⟩,
      alike_of_quiet hle (candidates i) (hs i) hi⟩
    exact Date.not_lt.1 fun hlt => hi _ (.inl (validFrom_mem_breakpoints _)) ⟨hlt, h⟩

/-- A rule evaluates on every date of a piece as on the first. -/
theorem evaluate_of_mem_piece {τ : ValueType} {r : Rule G τ} {g : G} (hs : r.SteadyOn g)
    {p q : Period} (hq : q ∈ r.pieces g p) {d : Date} (hd : d ∈ q) :
    r.evaluate g d = (r.evaluate g q.start).mapError (.redate d) := by
  refine evaluate_alike r (alike_of_quiet hd.1 r hs fun b hb => ?_)
  exact Period.no_breakpoint_of_mem_partition hq hd (DateSet.mem_union.2 hb)

end Rule

end DatedRules
