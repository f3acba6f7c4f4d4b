import DatedRules.Proofs.Cuts
import DatedRules.Proofs.Pointwise

/-!
# What a run reads

A run depends on its basis through the facts that the rule reads on the dates of the period and
through the breakpoints of these facts strictly inside the period. On bases that have the same of
both (`Rule.SameWithin`) the rule evaluates alike on every date of the period
(`Rule.evaluate_of_sameWithin`) and the period is cut into the same pieces
(`Rule.pieces_of_sameWithin`), so the two runs are the same in all they report
(`Rule.run_of_sameWithin`). Whatever else a basis holds, before the period, after it or where the
rule does not read, has no part in a run.
-/

namespace DatedRules

namespace Rule

variable {G : Type} {g₁ g₂ : G} {p : Period}

/-- Whether two bases have the same for a rule to read in a period: the same facts on its dates and
the same breakpoints strictly inside it. -/
def SameWithin (g₁ g₂ : G) (p : Period) : {τ : ValueType} → Rule G τ → Prop
  | _, constant _ _ => True
  | _, extract _ read => read g₁ = read g₂
  | _, extractAt _ read => (∀ d ∈ p, (read g₁).on d = (read g₂).on d) ∧
      ∀ b, Period.Inside b p → (b ∈ (read g₁).breakpoints ↔ b ∈ (read g₂).breakpoints)
  | _, combine1 _ a _ => a.SameWithin g₁ g₂ p
  | _, combine2 _ a b _ => a.SameWithin g₁ g₂ p ∧ b.SameWithin g₁ g₂ p
  | _, combine3 _ a b c _ => a.SameWithin g₁ g₂ p ∧ b.SameWithin g₁ g₂ p ∧ c.SameWithin g₁ g₂ p
  | _, product _ _ factors => ∀ i, (factors i).SameWithin g₁ g₂ p
  | _, variants _ _ candidates => ∀ i, (candidates i).SameWithin g₁ g₂ p

theorem alike_of_sameWithin {d : Date} (hd : d ∈ p) : ∀ {τ : ValueType} (r : Rule G τ),
    r.SameWithin g₁ g₂ p → r.Alike g₁ d g₂ d
  | _, constant _ _, _ => trivial
  | _, extract _ _, h => h
  | _, extractAt _ _, h => h.1 d hd
  | _, combine1 _ a _, h => alike_of_sameWithin hd a h
  | _, combine2 _ a b _, h => ⟨alike_of_sameWithin hd a h.1, alike_of_sameWithin hd b h.2⟩
  | _, combine3 _ a b c _, h =>
    ⟨alike_of_sameWithin hd a h.1, alike_of_sameWithin hd b h.2.1, alike_of_sameWithin hd c h.2.2⟩
  | _, product _ _ factors, h => fun i => alike_of_sameWithin hd (factors i) (h i)
  | _, variants _ _ candidates, h => fun i =>
    ⟨Iff.rfl, alike_of_sameWithin hd (candidates i) (h i)⟩

theorem mem_dataDates_of_sameWithin {b : Date} (hb : Period.Inside b p) :
    ∀ {τ : ValueType} (r : Rule G τ), r.SameWithin g₁ g₂ p →
      (b ∈ r.dataDates g₁ ↔ b ∈ r.dataDates g₂)
  | _, constant _ _, _ => Iff.rfl
  | _, extract _ _, _ => Iff.rfl
  | _, extractAt _ _, h => h.2 b hb
  | _, combine1 _ a _, h => mem_dataDates_of_sameWithin hb a h
  | _, combine2 _ a b _, h => by
    simp only [dataDates, List.mem_append, mem_dataDates_of_sameWithin hb a h.1,
      mem_dataDates_of_sameWithin hb b h.2]
  | _, combine3 _ a b c _, h => by
    simp only [dataDates, List.mem_append, mem_dataDates_of_sameWithin hb a h.1,
      mem_dataDates_of_sameWithin hb b h.2.1, mem_dataDates_of_sameWithin hb c h.2.2]
  | _, product _ _ factors, h => by
    rw [dataDates, dataDates, mem_flatten_ofFn, mem_flatten_ofFn]
    exact exists_congr fun i => mem_dataDates_of_sameWithin hb (factors i) (h i)
  | _, variants _ _ candidates, h => by
    rw [dataDates, dataDates, mem_flatten_ofFn, mem_flatten_ofFn]
    exact exists_congr fun i => mem_dataDates_of_sameWithin hb (candidates i) (h i)

variable {τ : ValueType} {r : Rule G τ}

theorem evaluate_of_sameWithin (h : r.SameWithin g₁ g₂ p) {d : Date} (hd : d ∈ p) :
    r.evaluate g₁ d = r.evaluate g₂ d := by
  have h₁ := evaluate_alike r (r.alike_refl g₁ d)
  have h₂ := evaluate_alike r (alike_of_sameWithin hd r h)
  rw [h₂]
  exact h₁

theorem pieces_of_sameWithin (h : r.SameWithin g₁ g₂ p) : r.pieces g₁ p = r.pieces g₂ p := by
  refine Period.partition_congr fun b hb => ?_
  simp only [DateSet.mem_union, dataBreakpoints, DateSet.mem_ofList]
  exact or_congr_right (mem_dataDates_of_sameWithin hb r h)

theorem outcomes_of_sameWithin (h : r.SameWithin g₁ g₂ p) : r.outcomes g₁ p = r.outcomes g₂ p := by
  unfold outcomes
  rw [pieces_of_sameWithin h]
  refine mapM_congr fun q hq => ?_
  have hstart : q.start ∈ p := (p.tiles_partition _).mem_iff.2 ⟨q, hq, q.start_mem⟩
  unfold outcome
  rw [evaluate_of_sameWithin h hstart]

end Rule

namespace Reconciliation

/-- A basis with the amounts of `raisedBasis` from May 2023 to January 2025 and others before and
after, and with all else different. -/
def rewrittenBasis : Basis where
  gross := (Schedule.constant ⟨.zero, "anslag", "brutto"⟩).withChanges [
    (dayOf 2025 2 1, ⟨.one, "anslag", "brutto"⟩),
    (dayOf 2023 5 1, raisedBasis.gross.on (dayOf 2023 5 1)),
    (dayOf 2024 7 1, raisedBasis.gross.on (dayOf 2024 7 1))]
  paid := .constant ⟨.one, "anslag", "utbetalt"⟩
  deduction := ⟨.hundred, "anslag", "avkorting"⟩

/-- The year 2024. -/
def year2024 : Period := ⟨dayOf 2024 1 1, some (dayOf 2025 1 1), by decide⟩

theorem gross_changes_raisedBasis : raisedBasis.gross.changes =
    [(dayOf 2024 7 1, ⟨.ofNat 1300, "register", "brutto"⟩)] := rfl

theorem gross_changes_rewrittenBasis : rewrittenBasis.gross.changes =
    [(dayOf 2023 5 1, ⟨.ofNat 1000, "register", "brutto"⟩),
      (dayOf 2024 7 1, ⟨.ofNat 1300, "register", "brutto"⟩),
      (dayOf 2025 2 1, ⟨.one, "anslag", "brutto"⟩)] := rfl

theorem aboveCourtFee_sameWithin :
    aboveCourtFee.SameWithin raisedBasis rewrittenBasis year2024 := by
  refine ⟨fun i => match i with | ⟨0, _⟩ | ⟨1, _⟩ | ⟨2, _⟩ => trivial, fun d hd => ?_,
    fun b hb => ?_⟩
  · have hfirst : dayOf 2023 5 1 ≤ d := Date.le_trans (by decide) hd.1
    have hlast : ¬ dayOf 2025 2 1 ≤ d :=
      Date.not_le.2 (Date.lt_trans (hd.2 (newYear 2025) rfl) (by decide))
    show raisedBasis.gross.on d = rewrittenBasis.gross.on d
    rw [Schedule.on, Schedule.on, gross_changes_raisedBasis, gross_changes_rewrittenBasis]
    by_cases h : dayOf 2024 7 1 ≤ d
    · simp [hfirst, hlast, h]
    · simp [hfirst, h]
      rfl
  · show b ∈ raisedBasis.gross.changes.map Prod.fst ↔ b ∈ rewrittenBasis.gross.changes.map Prod.fst
    have hfirst : b ≠ dayOf 2023 5 1 := by
      rintro rfl
      exact absurd hb.1 (by decide)
    have hlast : b ≠ dayOf 2025 2 1 := by
      rintro rfl
      exact absurd (hb.2 (newYear 2025) rfl) (by decide)
    simp [gross_changes_raisedBasis, gross_changes_rewrittenBasis, hfirst, hlast]

end Reconciliation

namespace Rule

variable {G : Type} {τ : ValueType}

/-- Runs on bases that have the same for the rule to read in the period are the same. -/
theorem run_of_sameWithin {g₁ g₂ : G} {p : Period} {r : Rule G τ} (h : r.SameWithin g₁ g₂ p) :
    r.run g₁ p = r.run g₂ p := by
  unfold run
  rw [outcomes_of_sameWithin h]

open Reconciliation in
theorem run_of_sameWithin_aboveCourtFee :
    aboveCourtFee.SameWithin raisedBasis rewrittenBasis year2024 ∧
      aboveCourtFee.run raisedBasis year2024 = aboveCourtFee.run rewrittenBasis year2024 ∧
      (aboveCourtFee.run raisedBasis year2024).map (·.isSuccess) = .ok true ∧
      raisedBasis.gross.on (newYear 2023) ≠ rewrittenBasis.gross.on (newYear 2023) ∧
      raisedBasis.gross.breakpoints ≠ rewrittenBasis.gross.breakpoints :=
  ⟨aboveCourtFee_sameWithin, run_of_sameWithin aboveCourtFee_sameWithin, rfl, by decide, by decide⟩

end Rule

end DatedRules
