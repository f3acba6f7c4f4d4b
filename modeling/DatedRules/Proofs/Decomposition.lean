import DatedRules.Proofs.Cuts
import DatedRules.Proofs.Merging

/-!
# Runs on a varying basis as runs on snapshots

A run on a basis that varies cuts the period at the dates of the rule and of the basis, takes the
basis of the first day of each part, and cuts again where what the rule reads changes. If the basis
is steady, the same pieces come from cutting at the dates of the basis only and running the rule on
each part (`Rule.outcomes_parts`): a date of the rule that cuts a part is one that its run cuts at
as well (`Rule.outcomes_of_parts`), and the basis of that date is the one of the part.

So the run on the varying basis is the runs on the parts joined, and where the basis has no
breakpoint inside the period it is the run on the basis of the first day (`Rule.runVarying_joined`).
-/

namespace DatedRules

namespace Reconciliation

/-- A basis that is issued anew in July 2024. -/
def reissuedBasis : Schedule Basis :=
  (Schedule.constant raisedBasis).withChange (dayOf 2024 7 1)
    { raisedBasis with deduction := ⟨.ofNat 250, "register", "avkorting"⟩ }

/-- An amount times the court fee, in the range of decimals for the fee of 2023 only. -/
def hugeProduct : Rule Basis .decimal :=
  .product (about "PRODUKT" "Beløp ganger rettsgebyr") 2 fun i =>
    if i = 0 then .constant (about "BELOEP" "Beløp") (.ofNat (2 ^ 96 / 1250))
    else courtFee

end Reconciliation

namespace Rule

variable {G : Type} {τ : ValueType} {r : Rule G τ}

theorem run_eq_map (r : Rule G τ) (g : G) (p : Period) :
    r.run g p = (r.outcomes g p).map (assemble r.stamp) := by
  unfold run
  rcases r.outcomes g p with o | os <;> rfl

theorem runVarying_eq_map (r : Rule G τ) (v : Varying G) (p : Period) :
    r.runVarying v p = (((r.parts v p).mapM fun part =>
      r.outcomes (v.on part.start) part).map List.flatten).map (assemble r.stamp) := by
  show ((r.parts v p).mapM fun part => r.outcomes (v.on part.start) part) >>=
    (fun found => pure (assemble r.stamp found.flatten)) = _
  generalize List.mapM (m := Except Decimal.Overflow) _ (r.parts v p) = found
  rcases found with o | oss <;> rfl

/-- A run makes the same pieces if the period is cut at the dates of the rule beforehand. -/
theorem pieces_eq_flatMap (g : G) (p : Period) :
    r.pieces g p = (p.partition r.breakpoints).flatMap (r.pieces g) := by
  unfold pieces
  rw [← Period.partition_union]
  refine Period.partition_congr fun d _ => ?_
  simp only [DateSet.mem_union, ← or_assoc, or_self]

theorem outcomes_of_parts (g : G) (p : Period) :
    r.outcomes g p = ((p.partition r.breakpoints).mapM (r.outcomes g)).map List.flatten := by
  unfold outcomes
  rw [pieces_eq_flatMap, mapM_flatMap]

theorem parts_eq_flatMap (v : Varying G) (p : Period) :
    r.parts v p = (p.partition v.breakpoints).flatMap fun q => q.partition r.breakpoints := by
  unfold parts
  rw [← Period.partition_union]
  refine Period.partition_congr fun d _ => ?_
  simp only [DateSet.mem_union, or_comm]

/-- Outcomes on a steady basis come from the parts in which the basis stays the same. -/
theorem outcomes_parts {v : Varying G} (hv : v.Steady) (p : Period) :
    ((r.parts v p).mapM fun part => r.outcomes (v.on part.start) part).map List.flatten =
      ((p.partition v.breakpoints).mapM fun q => r.outcomes (v.on q.start) q).map List.flatten := by
  have hsame : ∀ q ∈ p.partition v.breakpoints, r.outcomes (v.on q.start) q =
      ((q.partition r.breakpoints).mapM fun part =>
        r.outcomes (v.on part.start) part).map List.flatten := by
    intro q hq
    rw [outcomes_of_parts]
    refine congrArg _ (mapM_congr fun part hpart => ?_)
    have hstart : part.start ∈ q := (q.tiles_partition _).mem_iff.2 ⟨part, hpart, part.start_mem⟩
    have hon : v.on q.start = v.on part.start := hv _ _ hstart.1 fun b hb =>
      Period.no_breakpoint_of_mem_partition hq hstart hb
    rw [hon]
  rw [mapM_congr hsame, mapM_map, parts_eq_flatMap, mapM_flatMap]
  generalize List.mapM (m := Except Decimal.Overflow) _ (p.partition _) = found
  rcases found with o | osss
  · rfl
  · simp only [Except.map, List.flatten_flatten]

/-- A run on a steady basis is the runs on the parts in which the basis stays the same, joined. -/
theorem runVarying_joined {v : Varying G} (hv : v.Steady) (r : Rule G τ) (p : Period) :
    r.runVarying v p = (do
      let runs ← (p.partition v.breakpoints).mapM fun q => r.run (v.on q.start) q
      return joined r.stamp runs) ∧
    ((∀ b ∈ v.breakpoints, ¬ Period.Inside b p) →
      r.runVarying v p = r.run (v.on p.start) p) := by
  rw [runVarying_eq_map, outcomes_parts hv]
  refine ⟨?_, fun h => ?_⟩
  · simp only [run_eq_map]
    rw [mapM_map]
    generalize List.mapM (m := Except Decimal.Overflow) _ (p.partition _) = found
    rcases found with o | oss
    · rfl
    · exact congrArg Except.ok (assemble_flatten r.stamp oss)
  · rw [Period.partition_of_forall_not_inside h, run_eq_map]
    simp only [List.mapM_cons, List.mapM_nil]
    rcases r.outcomes (v.on p.start) p with o | os
    · rfl
    · simp [Except.map, bind, Except.bind, pure, Except.pure]

open Reconciliation in
/-- The failures of 2024 are those of two runs, in one entry; from 2025 on there is one run. -/
theorem runVarying_joined_hugeProduct : reissuedBasis.varying.Steady ∧
    (∃ before after findings,
      hugeProduct.run (reissuedBasis.on (newYear 2022))
          ⟨newYear 2022, some (dayOf 2024 7 1), by decide⟩ = .ok before ∧
      hugeProduct.run (reissuedBasis.on (dayOf 2024 7 1)) (.openFrom (dayOf 2024 7 1)) = .ok after ∧
      hugeProduct.runVarying reissuedBasis.varying (.openFrom (newYear 2022))
          = .ok (.invalid findings) ∧
      joined hugeProduct.stamp [before, after] = .invalid findings ∧
      findings.offences = [
        ⟨courtFee.info, .noValidVariant, [⟨newYear 2022, some (newYear 2023), by decide⟩]⟩,
        ⟨hugeProduct.info, .overflow,
          [⟨newYear 2024, some (dayOf 2024 7 1), by decide⟩,
            ⟨dayOf 2024 7 1, some (newYear 2025), by decide⟩, .openFrom (newYear 2025)]⟩]) ∧
    (∀ b ∈ reissuedBasis.varying.breakpoints, ¬ Period.Inside b (.openFrom (newYear 2025))) ∧
    hugeProduct.runVarying reissuedBasis.varying (.openFrom (newYear 2025)) =
      hugeProduct.run (reissuedBasis.on (newYear 2025)) (.openFrom (newYear 2025)) := by
  have hs : reissuedBasis.varying.Steady := reissuedBasis.steady_varying
  have hquiet : ∀ b ∈ reissuedBasis.varying.breakpoints,
      ¬ Period.Inside b (.openFrom (newYear 2025)) := by decide
  refine ⟨hs, ⟨_, _, _, rfl, rfl, ?_, rfl, rfl⟩, hquiet, ?_⟩
  · exact (runVarying_joined hs hugeProduct _).1.trans rfl
  · exact (runVarying_joined hs hugeProduct _).2 hquiet

end Rule

end DatedRules
