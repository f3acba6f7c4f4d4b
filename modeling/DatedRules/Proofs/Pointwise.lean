import DatedRules.Proofs.Outcomes
import DatedRules.Reconciliation.Library

/-!
# Runs, date by date

From one date to a later one an evaluation changes at breakpoints only: without one in between, the
value stays the same with its whole explanation, or it is the same rule that fails, for the same
reason (`Rule.evaluate_of_quiet`).

So a run is a success if and only if the rule has a value on every date of the period, and then it
holds, for every date, the value of that date with its whole explanation (`Rule.run_pointwise`).

The same holds of a run on a basis that varies over time, where the value of a date is that on the
basis of that date; and the pieces of its results tile the period (`Rule.runVarying_pointwise`).
Such a basis is an `Aggregate`: a schedule of bases, or a pair of aggregates.
-/

namespace DatedRules

/-- A basis that varies over time: a schedule, or two aggregates side by side. -/
inductive Aggregate : Type → Type 1
  | schedule {G : Type} (s : Schedule G) : Aggregate G
  | pair {A B : Type} (a : Aggregate A) (b : Aggregate B) : Aggregate (A × B)

namespace Aggregate

def varying : {G : Type} → Aggregate G → Varying G
  | _, schedule s => s.varying
  | _, pair a b => a.varying.pair b.varying

section Varying

variable {G A B : Type} {s : Schedule G} {a : Aggregate A} {b : Aggregate B} {d : Date}

@[simp]
theorem on_schedule : (schedule s).varying.on d = s.on d := rfl

@[simp]
theorem on_pair : (pair a b).varying.on d = (a.varying.on d, b.varying.on d) := rfl

@[simp]
theorem breakpoints_schedule : (schedule s).varying.breakpoints = s.breakpoints := rfl

@[simp]
theorem mem_breakpoints_pair : d ∈ (pair a b).varying.breakpoints ↔
    d ∈ a.varying.breakpoints ∨ d ∈ b.varying.breakpoints :=
  DateSet.mem_union

end Varying

theorem steady_varying : ∀ {G : Type} (a : Aggregate G), a.varying.Steady
  | _, schedule s => s.steady_varying
  | _, pair a b => a.steady_varying.pair b.steady_varying

end Aggregate

section Accounts

variable {τ : ValueType} {ev : Date → Except Stop (Evaluated τ)} {p : Period}
  {os : List (Outcome τ)} {stamp : Stamp}

theorem Accounts.isSuccess_iff (h : Accounts ev p os) :
    (assemble stamp os).isSuccess = true ↔ ∀ d ∈ p, ∃ e, ev d = .ok e :=
  isSuccess_assemble.trans h.offences_eq_nil_iff

theorem Accounts.on?_of_mem (h : Accounts ev p os) (hok : (assemble stamp os).isSuccess = true)
    {d : Date} (hd : d ∈ p) : ∃ e, ev d = .ok e ∧ (assemble stamp os).on? d = some e := by
  obtain ⟨e, he⟩ := h.isSuccess_iff.1 hok d hd
  refine ⟨e, he, ?_⟩
  rw [assemble_eq_success_iff.2 ⟨isSuccess_assemble.1 hok, rfl, rfl⟩, RunResult.on?]
  obtain ⟨x, hx, hdx, -⟩ := (h.result_iff hd).2 he
  rcases hf : (successes os).find? fun x => d ∈ x.period with _ | y
  · exact absurd hdx (by simpa using List.find?_eq_none.1 hf x hx)
  · have hdy : d ∈ y.period := by simpa using List.find?_some hf
    have hy := (h.result_iff hd).1 ⟨y, List.mem_of_find?_eq_some hf, hdy, rfl⟩
    rw [he, Except.ok.injEq] at hy
    rw [hf, Option.map_some, hy]

theorem Accounts.on?_of_not_mem (h : Accounts ev p os) {d : Date} (hd : d ∉ p) :
    (assemble stamp os).on? d = none := by
  rcases hres : assemble stamp os with ⟨results, stamp'⟩ | findings
  · obtain ⟨-, rfl, -⟩ := assemble_eq_success_iff.1 hres
    have hnone : (successes os).find? (fun x => d ∈ x.period) = none := by
      rw [List.find?_eq_none]
      intro x hx hdx
      have hq : x.period ∈ os.map Prod.fst := List.mem_map_of_mem (mem_successes.1 hx)
      exact hd (h.tiles.mem_iff.2 ⟨_, hq, by simpa using hdx⟩)
    rw [RunResult.on?, hnone, Option.map_none]
  · rfl

/-- On a date one result holds the value, and no other result holds the date. -/
theorem Accounts.exists_result (h : Accounts ev p os) {d : Date} (hd : d ∈ p) {e : Evaluated τ}
    (he : ev d = .ok e) : ∃ x ∈ successes os, d ∈ x.period ∧ ev d = .ok x.result ∧
      ∀ y ∈ successes os, d ∈ y.period → y = x := by
  obtain ⟨x, hx, hdx, rfl⟩ := (h.result_iff hd).2 he
  refine ⟨x, hx, hdx, he, fun y hy hdy => ?_⟩
  have hq : y.period = x.period := h.tiles.eq_of_mem (List.mem_map_of_mem (mem_successes.1 hy))
    (List.mem_map_of_mem (mem_successes.1 hx)) hdy hdx
  have hr := (h.result_iff hd).1 ⟨y, hy, hdy, rfl⟩
  rw [he, Except.ok.injEq] at hr
  cases x
  cases y
  simp_all

end Accounts

namespace Reconciliation

/-- Whether the monthly amount is more than a court fee. -/
def aboveCourtFee : Rule Basis .truth :=
  .combine2 (about "BRUTTO-OVER-RETTSGEBYR" "Brutto over rettsgebyr") courtFee grossRule
    fun fee gross => .ok (fee.less gross)

theorem aboveCourtFee_total : aboveCourtFee.Total :=
  ⟨fun i => match i with | ⟨0, _⟩ | ⟨1, _⟩ | ⟨2, _⟩ => trivial, trivial, fun _ _ => ⟨_, rfl⟩⟩

theorem aboveCourtFee_steadyOn (b : Basis) : aboveCourtFee.SteadyOn b :=
  ⟨fun i => match i with | ⟨0, _⟩ | ⟨1, _⟩ | ⟨2, _⟩ => trivial, b.gross.steady_varying⟩

/-- The day with these numbers, or the first day of the rules if the calendar has none. -/
def dayOf (year : Int) (month day : Nat) : Date := (Date.of? year month day).getD validFrom

/-- A basis whose amount is raised in July 2024. -/
def raisedBasis : Basis where
  gross := (Schedule.constant ⟨.ofNat 1000, "register", "brutto"⟩).withChange
    (dayOf 2024 7 1) ⟨.ofNat 1300, "register", "brutto"⟩
  paid := .constant ⟨.ofNat 900, "register", "utbetalt"⟩
  deduction := ⟨.ofNat 200, "register", "avkorting"⟩

/-- Whether the monthly amount is more than a limit that comes with the basis. -/
def aboveLimit : Rule (Basis × Fact Decimal) .truth :=
  let gross : Rule (Basis × Fact Decimal) .decimal :=
    .extractAt (about "BRUTTO" "Ytelse før avkorting") fun g => g.1.gross.varying
  let limit : Rule (Basis × Fact Decimal) .decimal := .extract (about "GRENSE" "Grense") Prod.snd
  .combine2 (about "BRUTTO-OVER-GRENSE" "Brutto over grense") gross limit
    fun gross limit => .ok (limit.less gross)

theorem aboveLimit_total : aboveLimit.Total := ⟨trivial, trivial, fun _ _ => ⟨_, rfl⟩⟩

theorem aboveLimit_steadyOn (g : Basis × Fact Decimal) : aboveLimit.SteadyOn g :=
  ⟨g.1.gross.steady_varying, trivial⟩

/-- A basis that is replaced in 2024, with a limit that changes in 2025. -/
def limitedBasis : Aggregate (Basis × Fact Decimal) :=
  .pair (.schedule ((Schedule.constant
      { raisedBasis with gross := .constant ⟨.ofNat 800, "register", "brutto"⟩ }).withChange
    (dayOf 2024 1 1) raisedBasis))
    (.schedule ((Schedule.constant ⟨.ofNat 1000, "system", "grense"⟩).withChange
      (dayOf 2025 1 1) ⟨.ofNat 1100, "system", "grense"⟩))

end Reconciliation

namespace Rule

variable {G : Type} {τ : ValueType}

/-- From one date to a later one, with no breakpoint after the first up to the second, a total rule
has the same value, or fails in the same rule for the same reason. -/
theorem evaluate_of_quiet {r : Rule G τ} (ht : r.Total) {g : G} (hs : r.SteadyOn g) {d₁ d₂ : Date}
    (hle : d₁ ≤ d₂) (hq : r.Quiet g d₁ d₂) :
    (∃ e, r.evaluate g d₁ = .ok e ∧ r.evaluate g d₂ = .ok e) ∨
      ∃ reason info, r.evaluate g d₁ = .error (.failure ⟨reason, d₁, info⟩) ∧
        r.evaluate g d₂ = .error (.failure ⟨reason, d₂, info⟩) := by
  have halike := evaluate_alike r (alike_of_quiet hle r hs hq)
  rcases h : r.evaluate g d₁ with stop | e
  · cases stop with
    | failure f =>
      obtain rfl : f.date = d₁ := date_of_evaluate h
      rw [h] at halike
      exact .inr ⟨f.reason, f.rule, rfl, halike⟩
    | overflow o => exact absurd h (sound_evaluate g d₁ r ht o)
  · rw [h] at halike
    exact .inl ⟨e, rfl, halike⟩

open Reconciliation in
theorem evaluate_of_quiet_aboveCourtFee : aboveCourtFee.Total ∧
    aboveCourtFee.SteadyOn raisedBasis ∧ dayOf 2024 7 1 ≤ dayOf 2024 12 31 ∧
    aboveCourtFee.Quiet raisedBasis (dayOf 2024 7 1) (dayOf 2024 12 31) ∧
    ∃ e, aboveCourtFee.evaluate raisedBasis (dayOf 2024 7 1) = .ok e ∧
      aboveCourtFee.evaluate raisedBasis (dayOf 2024 12 31) = .ok e := by
  have hle : dayOf 2024 7 1 ≤ dayOf 2024 12 31 := by decide
  have hquiet : aboveCourtFee.Quiet raisedBasis (dayOf 2024 7 1) (dayOf 2024 12 31) := by
    have hlist : ∀ b ∈ (aboveCourtFee.breakpoints.union
        (aboveCourtFee.dataBreakpoints raisedBasis)).toList,
        ¬ (dayOf 2024 7 1 < b ∧ b ≤ dayOf 2024 12 31) := by decide +kernel
    exact fun b hb => hlist b (DateSet.mem_union.2 hb)
  refine ⟨aboveCourtFee_total, aboveCourtFee_steadyOn _, hle, hquiet, ?_⟩
  rcases evaluate_of_quiet aboveCourtFee_total (aboveCourtFee_steadyOn raisedBasis) hle hquiet with
    h | ⟨reason, info, h, -⟩
  · exact h
  · cases h

/-- A run of a total rule says of every date what the evaluation on that date does. -/
theorem run_pointwise {r : Rule G τ} (ht : r.Total) {g : G} (hs : r.SteadyOn g) (p : Period) :
    ∃ res, r.run g p = .ok res ∧
      (res.isSuccess = true ↔ ∀ d ∈ p, ∃ e, r.evaluate g d = .ok e) ∧
      (res.isSuccess = true →
        (∀ d ∈ p, ∃ e, r.evaluate g d = .ok e ∧ res.on? d = some e) ∧
          ∀ d, d ∉ p → res.on? d = none) := by
  obtain ⟨os, hos, hrun⟩ := exists_run ht g p
  have h := outcomes_account hs hos
  exact ⟨_, hrun, h.isSuccess_iff, fun hok => ⟨fun d hd => h.on?_of_mem hok hd,
    fun d hd => h.on?_of_not_mem hd⟩⟩

open Reconciliation in
theorem run_pointwise_aboveCourtFee : aboveCourtFee.Total ∧ aboveCourtFee.SteadyOn raisedBasis ∧
    ∃ res, aboveCourtFee.run raisedBasis (.openFrom (newYear 2023)) = .ok res ∧
      res.isSuccess = true ∧ ∀ d ∈ Period.openFrom (newYear 2023),
        ∃ e, aboveCourtFee.evaluate raisedBasis d = .ok e ∧ res.on? d = some e := by
  refine ⟨aboveCourtFee_total, aboveCourtFee_steadyOn _, ?_⟩
  obtain ⟨res, hrun, -, hval⟩ := run_pointwise aboveCourtFee_total
    (aboveCourtFee_steadyOn raisedBasis) (.openFrom (newYear 2023))
  have hok : (aboveCourtFee.run raisedBasis (.openFrom (newYear 2023))).map (·.isSuccess)
      = .ok true := rfl
  rw [hrun] at hok
  have hsuc : res.isSuccess = true := Except.ok.inj hok
  exact ⟨res, hrun, hsuc, (hval hsuc).1⟩

/-- A run of a total rule on an aggregate says of every date what the evaluation on that date and
its basis does, in pieces that follow one another from the start of the period to its end. -/
theorem runVarying_pointwise {r : Rule G τ} (ht : r.Total) (a : Aggregate G) {p : Period}
    (hs : ∀ d ∈ p, r.SteadyOn (a.varying.on d)) :
    ∃ res, r.runVarying a.varying p = .ok res ∧
      (res.isSuccess = true ↔ ∀ d ∈ p, ∃ e, r.evaluate (a.varying.on d) d = .ok e) ∧
      ∀ results stamp, res = .success results stamp →
        (∀ d ∈ p, ∃ x ∈ results, d ∈ x.period ∧
          r.evaluate (a.varying.on d) d = .ok x.result ∧
            ∀ y ∈ results, d ∈ y.period → y = x) ∧
        (∀ x ∈ results, ∃ d, d ∈ x.period) ∧
        (results.map (·.period)).Pairwise Period.Precedes ∧
        (results.map (·.period)).IsChain (fun q q' => q.stop = some q'.start) ∧
        (results.map (·.period)).head?.map Period.start = some p.start ∧
        (results.map (·.period)).getLast?.map Period.stop = some p.stop := by
  obtain ⟨oss, hoss, hrun⟩ := exists_runVarying ht a.varying p
  have h := runVarying_account a.steady_varying hs hoss
  refine ⟨_, hrun, h.isSuccess_iff, ?_⟩
  intro results stamp hres
  obtain ⟨hnil, rfl, -⟩ := assemble_eq_success_iff.1 hres
  have hok := h.offences_eq_nil_iff.1 hnil
  have htiles := h.tiles_results hok
  refine ⟨fun d hd => ?_, fun x _ => ⟨_, x.period.start_mem⟩, htiles.ordered, htiles.joined,
    htiles.first, htiles.last⟩
  obtain ⟨e, he⟩ := hok d hd
  exact h.exists_result hd he

open Reconciliation in
theorem runVarying_pointwise_aboveLimit : aboveLimit.Total ∧
    (∀ d ∈ Period.openFrom (newYear 2023), aboveLimit.SteadyOn (limitedBasis.varying.on d)) ∧
    ∃ results stamp,
      aboveLimit.runVarying limitedBasis.varying (.openFrom (newYear 2023))
        = .ok (.success results stamp) ∧
      ∀ d ∈ Period.openFrom (newYear 2023), ∃ x ∈ results, d ∈ x.period ∧
        aboveLimit.evaluate (limitedBasis.varying.on d) d = .ok x.result ∧
          ∀ y ∈ results, d ∈ y.period → y = x := by
  refine ⟨aboveLimit_total, fun d _ => aboveLimit_steadyOn _, ?_⟩
  obtain ⟨res, hrun, -, hval⟩ := runVarying_pointwise aboveLimit_total limitedBasis
    (fun d (_ : d ∈ Period.openFrom (newYear 2023)) => aboveLimit_steadyOn _)
  have hok : (aboveLimit.runVarying limitedBasis.varying (.openFrom (newYear 2023))).map
      (·.isSuccess) = .ok true := rfl
  rw [hrun] at hok
  rcases res with ⟨results, stamp⟩ | findings
  · exact ⟨results, stamp, hrun, (hval results stamp rfl).1⟩
  · cases hok

end Rule

end DatedRules
