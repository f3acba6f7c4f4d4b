import DatedRules.Proofs.Pointwise
import Mathlib.Data.List.Nodup

/-!
# What an invalid run reports

The entries of an invalid run account for every failure (`Rule.offences_of_run`). No two are for the
same rule and reason, and they stand in the order in which these first fail. Each holds pieces of
the run's own partition, in order and each once, and no piece is in two entries. A date is in a
piece of an entry if and only if the evaluation on that date fails for the entry's rule and reason,
so a date is in no piece of any entry if and only if there is a value on that date.
-/

namespace DatedRules

theorem Period.nodup_of_precedes {qs : List Period} (h : qs.Pairwise Precedes) : qs.Nodup := by
  refine h.imp ?_
  rintro a _ hab rfl
  exact Date.lt_irrefl _ hab.start_lt

/-- Failures of one piece are the same, so no piece is in two entries. -/
theorem Grouped.disjoint_periods {xs : List ((RuleInfo × Reason) × Period)} {found : List Offence}
    (h : Grouped xs found) (hxs : xs.Pairwise fun x y => x.2.Precedes y.2) :
    found.Pairwise fun a b => ∀ q ∈ a.periods, q ∉ b.periods := by
  have hsame : (xs.map Prod.snd).Nodup := by
    refine Period.nodup_of_precedes ?_
    rwa [List.pairwise_map]
  refine h.distinct.imp_of_mem fun {a b} ha hb hab q hqa hqb => hab ?_
  have hx := List.inj_on_of_nodup_map hsame ((h.mem_periods ha).1 hqa)
    ((h.mem_periods hb).1 hqb) rfl
  exact congrArg Prod.fst hx

section Accounts

variable {τ : ValueType} {ev : Date → Except Stop (Evaluated τ)} {p : Period}
  {os : List (Outcome τ)}

theorem Accounts.mem_periods_iff (h : Accounts ev p os) {d : Date} (hd : d ∈ p) {rule : RuleInfo}
    {reason : Reason} : (∃ o ∈ offences os, o.rule = rule ∧ o.reason = reason ∧
      ∃ q ∈ o.periods, d ∈ q) ↔ ev d = .error (.failure ⟨reason, d, rule⟩) := by
  rw [← h.failure_iff hd]
  constructor
  · rintro ⟨o, ho, rfl, rfl, q, hq, hdq⟩
    exact ⟨q, (h.grouped.mem_periods ho).1 hq, hdq⟩
  · rintro ⟨q, hq, hdq⟩
    obtain ⟨o, ho, hk⟩ := h.grouped.complete _ hq
    obtain ⟨rfl, rfl⟩ : o.rule = rule ∧ o.reason = reason := Prod.ext_iff.1 hk
    exact ⟨o, ho, rfl, rfl, q, (h.grouped.mem_periods ho).2 hq, hdq⟩

theorem Accounts.not_mem_periods_iff (h : Accounts ev p os) {d : Date} (hd : d ∈ p) :
    (∀ o ∈ offences os, ∀ q ∈ o.periods, d ∉ q) ↔ ∃ e, ev d = .ok e := by
  constructor
  · intro hnone
    obtain ⟨⟨q, x⟩, ho, hdq⟩ := h.exists_mem hd
    have hx := h.tells _ ho d hdq
    rcases x with f | e
    · obtain ⟨o, ho', -, -, q', hq', hdq'⟩ := (h.mem_periods_iff hd).2 hx
      exact absurd hdq' (hnone o ho' q' hq')
    · exact ⟨e, hx⟩
  · rintro ⟨e, he⟩ o ho q hq hdq
    have hf := (h.mem_periods_iff hd).1 ⟨o, ho, rfl, rfl, q, hq, hdq⟩
    rw [he] at hf
    cases hf

end Accounts

namespace Reconciliation

/-- An amount times the monthly amount times the court fee. For `raisedBasis` it is in the range of
decimals until the monthly amount is raised. -/
def raisedProduct : Rule Basis .decimal :=
  .product (about "PRODUKT-BRUTTO" "Beløp ganger brutto ganger rettsgebyr") 3 fun i =>
    match i with
    | 0 => .constant (about "BELOEP" "Beløp") (.ofNat (2 ^ 96 / 1500000))
    | 1 => grossRule
    | 2 => courtFee

theorem raisedProduct_steadyOn (b : Basis) : raisedProduct.SteadyOn b := fun i =>
  match i with
  | 0 => trivial
  | 1 => b.gross.steady_varying
  | 2 => fun j => match j with | ⟨0, _⟩ | ⟨1, _⟩ | ⟨2, _⟩ => trivial

end Reconciliation

namespace Rule

variable {G : Type} {τ : ValueType}

/-- The entries of an invalid run, and what they say of every date if the basis is steady where the
rule reads it. -/
theorem offences_of_run {r : Rule G τ} {g : G} {p : Period} {findings : InvalidRun}
    (h : r.run g p = .ok (.invalid findings)) :
    (findings.offences.Pairwise fun a b => (a.rule, a.reason) ≠ (b.rule, b.reason)) ∧
    (findings.offences.Pairwise fun a b => ∃ q ∈ a.periods, ∀ q' ∈ b.periods, q.Precedes q') ∧
    (∀ o ∈ findings.offences, o.periods ≠ [] ∧ o.periods.Pairwise Period.Precedes ∧
      o.periods.Nodup ∧ ∀ q ∈ o.periods, q ∈ r.pieces g p) ∧
    (findings.offences.Pairwise fun a b => ∀ q ∈ a.periods, q ∉ b.periods) ∧
    (r.SteadyOn g → ∀ d ∈ p,
      (∀ rule reason, (∃ o ∈ findings.offences, o.rule = rule ∧ o.reason = reason ∧
          ∃ q ∈ o.periods, d ∈ q) ↔ r.evaluate g d = .error (.failure ⟨reason, d, rule⟩)) ∧
      ((∀ o ∈ findings.offences, ∀ q ∈ o.periods, d ∉ q) ↔ ∃ e, r.evaluate g d = .ok e)) := by
  obtain ⟨os, hos, hres⟩ := run_eq_ok_iff.1 h
  have hpieces := outcomes_map_fst hos
  have hord : (os.map Prod.fst).Pairwise Period.Precedes := by
    rw [hpieces]
    exact (p.tiles_partition _).ordered
  have hg := grouped_offences hord
  rw [assemble_eq_invalid hres]
  refine ⟨hg.distinct, hg.earliest, fun o ho => ?_, hg.disjoint_periods (failures_ordered hord),
    fun hs d hd => ?_⟩
  · have hqs : o.periods.Pairwise Period.Precedes := by
      rw [hg.exact o ho]
      exact piecesOf_ordered (failures_ordered hord) o.key
    refine ⟨hg.inhabited o ho, hqs, Period.nodup_of_precedes hqs, fun q hq => ?_⟩
    obtain ⟨f, hf, -⟩ := mem_failures.1 ((hg.mem_periods ho).1 hq)
    rw [← hpieces]
    exact List.mem_map_of_mem hf
  · have ha := outcomes_account hs hos
    exact ⟨fun rule reason => ha.mem_periods_iff hd, ha.not_mem_periods_iff hd⟩

open Reconciliation in
/-- The monthly amount changes inside the period, and from then on there is no product. -/
theorem offences_of_run_raisedProduct : ∃ findings,
    raisedProduct.run raisedBasis (.openFrom (newYear 2022)) = .ok (.invalid findings) ∧
      findings.offences = [
        ⟨courtFee.info, .noValidVariant, [⟨newYear 2022, some (newYear 2023), by decide⟩]⟩,
        ⟨raisedProduct.info, .overflow,
          [⟨dayOf 2024 7 1, some (newYear 2025), by decide⟩, .openFrom (newYear 2025)]⟩] ∧
      dayOf 2024 7 1 ∈ raisedProduct.dataBreakpoints raisedBasis ∧
      raisedProduct.SteadyOn raisedBasis ∧
      ∀ d ∈ Period.openFrom (newYear 2022),
        (∀ rule reason, (∃ o ∈ findings.offences, o.rule = rule ∧ o.reason = reason ∧
            ∃ q ∈ o.periods, d ∈ q) ↔
          raisedProduct.evaluate raisedBasis d = .error (.failure ⟨reason, d, rule⟩)) ∧
        ((∀ o ∈ findings.offences, ∀ q ∈ o.periods, d ∉ q) ↔
          ∃ e, raisedProduct.evaluate raisedBasis d = .ok e) := by
  refine ⟨_, rfl, rfl, by decide +kernel, raisedProduct_steadyOn _, ?_⟩
  exact (offences_of_run rfl).2.2.2.2 (raisedProduct_steadyOn _)

end Rule

end DatedRules
