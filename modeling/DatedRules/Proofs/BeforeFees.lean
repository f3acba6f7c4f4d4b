import DatedRules.Proofs.Offences
import DatedRules.Proofs.Overflow
import DatedRules.Proofs.Schedules
import DatedRules.Proofs.Variants

/-!
# Before the first court fee

The pieces of a tiling that start before a date follow one another, and unless the date is inside a
piece they have the dates of the period before it (`Period.Tiles.joined_before`,
`Period.Tiles.mem_before_iff`). If an evaluation fails in one and the same way on all these dates
and has a value on all others, then the findings are one entry with these pieces
(`Accounts.offences_eq_singleton`).

The reconciliation is such an evaluation where its differences are in range: there is no court fee
before 2023, and from then on the fee, the limit and the outcome have values (`evaluate_rule_of_lt`,
`exists_evaluate_rule`). The rule of the fee stands twice in the graph, but both times it fails as
itself. So a run is invalid if and only if it starts before 2023 (`run_invalid_iff`).
-/

namespace DatedRules

namespace Period.Tiles

variable {p : Period} {qs : List Period} {b : Date}

theorem joined_before (h : p.Tiles qs) (b : Date) :
    (qs.filter fun q => q.start < b).IsChain fun q q' => q.stop = some q'.start := by
  rw [← takeWhile_eq_filter_of_pairwise (R := Precedes) ?_ h.ordered]
  · exact h.joined.prefix (List.takeWhile_prefix _)
  · intro q q' hq hq'
    exact decide_eq_true (Date.lt_trans hq.start_lt (of_decide_eq_true hq'))

theorem mem_before_iff (h : p.Tiles qs) (hb : ∀ q ∈ qs, ¬ Inside b q) {d : Date} :
    (∃ q ∈ qs.filter fun q => q.start < b, d ∈ q) ↔ d ∈ p ∧ d < b := by
  simp only [List.mem_filter, decide_eq_true_eq]
  constructor
  · rintro ⟨q, ⟨hq, hqb⟩, hd⟩
    refine ⟨h.mem_iff.2 ⟨q, hq, hd⟩, Date.not_le.1 fun hbd => hb q hq ?_⟩
    exact ⟨hqb, hd.2.of_le hbd⟩
  · rintro ⟨hd, hdb⟩
    obtain ⟨q, hq, hdq⟩ := h.mem_iff.1 hd
    exact ⟨q, ⟨hq, Date.lt_of_le_of_lt hdq.1 hdb⟩, hdq⟩

end Period.Tiles

theorem exists_eq_invalid_iff {τ : ValueType} {res : RunResult τ} :
    (∃ findings, res = .invalid findings) ↔ ¬ res.isSuccess = true := by
  cases res <;> simp [RunResult.isSuccess]

section Accounts

variable {τ : ValueType} {ev : Date → Except Stop (Evaluated τ)} {p : Period}
  {os : List (Outcome τ)} {b : Date} {rule : RuleInfo} {reason : Reason}

theorem piecesOf_failures {k : RuleInfo × Reason} {P : Period → Bool} : ∀ {os : List (Outcome τ)},
    (∀ o ∈ os, if P o.1 then ∃ f, o.2 = .error f ∧ (f.rule, f.reason) = k else ∃ e, o.2 = .ok e) →
      piecesOf (failures os) k = (os.map Prod.fst).filter P
  | [], _ => rfl
  | (q, x) :: os, h => by
    rw [List.forall_mem_cons] at h
    have ih := piecesOf_failures h.2
    have hx := h.1
    rw [List.map_cons, List.filter_cons, ← ih]
    split at hx
    · rename_i hP
      obtain ⟨f, rfl, rfl⟩ := hx
      rw [if_pos hP]
      simp [piecesOf, failures]
    · rename_i hP
      obtain ⟨e, rfl⟩ := hx
      rw [if_neg hP]
      simp [piecesOf, failures]

section Before

variable (h : Accounts ev p os)
  (hfail : ∀ d ∈ p, d < b → ev d = .error (.failure ⟨reason, d, rule⟩))
  (hok : ∀ d ∈ p, b ≤ d → ∃ e, ev d = .ok e)

include h hfail hok

theorem Accounts.piecesOf_eq : piecesOf (failures os) (rule, reason) =
    (os.map Prod.fst).filter fun q => q.start < b := by
  refine piecesOf_failures fun o ho => ?_
  have hstart := h.mem ho o.1.start_mem
  have htells := h.tells o ho _ o.1.start_mem
  obtain ⟨q, f | e⟩ := o
  · by_cases hq : q.start < b
    · rw [hfail _ hstart hq] at htells
      cases htells
      rw [if_pos (decide_eq_true hq)]
      exact ⟨f, rfl, rfl⟩
    · obtain ⟨e, he⟩ := hok _ hstart (Date.not_lt.1 hq)
      rw [he] at htells
      cases htells
  · by_cases hq : q.start < b
    · rw [hfail _ hstart hq] at htells
      cases htells
    · rw [if_neg (by simpa using hq)]
      exact ⟨e, rfl⟩

theorem Accounts.key_eq {o : Offence} (ho : o ∈ offences os) : o.key = (rule, reason) := by
  obtain ⟨q, hq⟩ := List.exists_mem_of_ne_nil _ (h.grouped.inhabited o ho)
  have hf := (h.grouped.mem_periods ho).1 hq
  obtain ⟨f, hfo, -⟩ := mem_failures.1 hf
  have hstart : q.start ∈ p := h.mem hfo q.start_mem
  have hev := (h.failure_iff hstart).1 ⟨q, hf, q.start_mem⟩
  by_cases hqb : q.start < b
  · rw [hfail _ hstart hqb] at hev
    cases hev
    rfl
  · obtain ⟨e, he⟩ := hok _ hstart (Date.not_lt.1 hqb)
    rw [he] at hev
    cases hev

theorem Accounts.exists_invalid_iff {stamp : Stamp} :
    (∃ findings, assemble stamp os = .invalid findings) ↔ p.start < b := by
  rw [exists_eq_invalid_iff, h.isSuccess_iff]
  constructor
  · exact fun hne => Date.not_le.1 fun hle => hne fun d hd => hok d hd (Date.le_trans hle hd.1)
  · intro hlt hall
    obtain ⟨e, he⟩ := hall p.start p.start_mem
    rw [hfail _ p.start_mem hlt] at he
    cases he

theorem Accounts.offences_eq_singleton (hb : p.start < b) :
    offences os = [⟨rule, reason, (os.map Prod.fst).filter fun q => q.start < b⟩] := by
  have hentry : ∀ o ∈ offences os,
      o = ⟨rule, reason, (os.map Prod.fst).filter fun q => q.start < b⟩ := by
    intro o ho
    have hkey := h.key_eq hfail hok ho
    have hperiods := h.grouped.exact o ho
    rw [hkey, h.piecesOf_eq hfail hok] at hperiods
    obtain ⟨hrule, hreason⟩ := Prod.mk.inj hkey
    rw [← hrule, ← hreason, ← hperiods]
  have hdistinct := h.grouped.distinct
  rcases hos : offences os with _ | ⟨o, _ | ⟨o', rest⟩⟩
  · obtain ⟨e, he⟩ := h.offences_eq_nil_iff.1 hos p.start p.start_mem
    rw [hfail _ p.start_mem hb] at he
    cases he
  · rw [hentry o (hos ▸ List.mem_cons_self ..)]
  · rw [hos, List.pairwise_cons] at hdistinct
    have ho := h.key_eq hfail hok (o := o) (by simp [hos])
    have ho' := h.key_eq hfail hok (o := o') (by simp [hos])
    exact absurd (ho.trans ho'.symm) (hdistinct.1 o' (List.mem_cons_self ..))

end Before

end Accounts

namespace Reconciliation

variable {g : Basis} {d : Date}

theorem exists_valueOn_differenceRule_of_inRangeOn (h : g.InRangeOn d) :
    ∃ v, differenceRule.valueOn g d = .ok v := by
  obtain ⟨c, hc⟩ := exists_owed_iff.2 h.gross
  obtain ⟨v, hv⟩ := Decimal.exists_sub_eq_ok_iff.2 (h.paid c hc)
  exact ⟨v, Rule.valueOn_combine2 rfl (valueOn_owedRule_eq_ok_iff.2 hc) hv⟩

theorem evaluate_courtFee_of_lt (hd : d < newYear 2023) :
    courtFee.evaluate g d = .error (.failure ⟨.noValidVariant, d, courtFee.info⟩) := by
  refine Rule.evaluate_variants_of_forall_lt fun c hc => ?_
  have hfirst : ∀ c ∈ courtFees, newYear 2023 ≤ c.validFrom := by decide
  exact Date.lt_of_lt_of_le hd (hfirst c hc)

theorem evaluate_rule_of_lt (h : g.InRangeOn d) (hd : d < newYear 2023) :
    rule.evaluate g d = .error (.failure ⟨.noValidVariant, d, courtFee.info⟩) := by
  obtain ⟨v, hv⟩ := exists_valueOn_differenceRule_of_inRangeOn h
  obtain ⟨x, hx, -⟩ := Rule.valueOn_eq_ok_iff.1 hv
  rw [rule, Rule.evaluate, hx, evaluate_courtFee_of_lt hd]
  rfl

theorem exists_evaluate_rule (h : g.InRangeOn d) (hd : newYear 2023 ≤ d) :
    ∃ e, rule.evaluate g d = .ok e := by
  obtain ⟨x, hx⟩ := exists_valueOn_differenceRule_of_inRangeOn h
  obtain ⟨fee, hlt, -, hy, hlt'⟩ := exists_valueOn_courtFee (g := g) hd
  obtain ⟨z, hz, -⟩ := exists_valueOn_limitRule hy hlt'
  have hval : rule.valueOn g d = .ok (classify x (.ofNat fee hlt) z) :=
    Rule.valueOn_combine3 hx hy hz rfl
  obtain ⟨e, he, -⟩ := Rule.valueOn_eq_ok_iff.1 hval
  exact ⟨e, he⟩

theorem not_inside_piece {p q : Period} (hq : q ∈ rule.pieces g p) :
    ¬ Period.Inside (newYear 2023) q :=
  Period.not_inside_of_mem_partition hq (DateSet.mem_union.2 (.inl rule.validFrom_mem_breakpoints))

/-- A run of the reconciliation is invalid if and only if it starts before the first court fee. The
findings then are that there is none, for pieces that follow one another up to it. -/
theorem run_invalid_iff {g : Basis} {p : Period} (h : ∀ d ∈ p, g.InRangeOn d) :
    ∃ res, rule.run g p = .ok res ∧
      ((∃ findings, res = .invalid findings) ↔ p.start < newYear 2023) ∧
      ∀ findings, res = .invalid findings →
        (∃ periods,
          findings.offences =
            [⟨about "RETTSGEBYR" "Gjeldende rettsgebyr", .noValidVariant, periods⟩] ∧
          periods.IsChain (fun q q' => q.stop = some q'.start) ∧
          ∀ d, (∃ q ∈ periods, d ∈ q) ↔ d ∈ p ∧ d < newYear 2023) ∧
        ∀ o ∈ findings.offences, o.reason ≠ .overflow := by
  obtain ⟨res, hrun⟩ := (Rule.exists_run_iff (rule_steadyOn g)).2 fun d hd =>
    sound_rule_iff.2 (h d hd)
  obtain ⟨os, hos, hres⟩ := Rule.run_eq_ok_iff.1 hrun
  have ha := Rule.outcomes_account (rule_steadyOn g) hos
  have hfail : ∀ d ∈ p, d < newYear 2023 →
      rule.evaluate g d = .error (.failure ⟨.noValidVariant, d, courtFee.info⟩) :=
    fun d hd => evaluate_rule_of_lt (h d hd)
  have hok : ∀ d ∈ p, newYear 2023 ≤ d → ∃ e, rule.evaluate g d = .ok e :=
    fun d hd => exists_evaluate_rule (h d hd)
  have hinvalid : (∃ findings, res = .invalid findings) ↔ p.start < newYear 2023 := by
    rw [← hres]
    exact ha.exists_invalid_iff hfail hok
  refine ⟨res, hrun, hinvalid, fun findings hf => ?_⟩
  have hoffences : findings.offences = [⟨courtFee.info, .noValidVariant,
      (os.map Prod.fst).filter fun q => q.start < newYear 2023⟩] := by
    rw [assemble_eq_invalid (hres.trans hf)]
    exact ha.offences_eq_singleton hfail hok (hinvalid.1 ⟨findings, hf⟩)
  have hcuts : ∀ q ∈ os.map Prod.fst, ¬ Period.Inside (newYear 2023) q := by
    rw [Rule.outcomes_map_fst hos]
    exact fun q hq => not_inside_piece hq
  refine ⟨⟨_, hoffences, ha.tiles.joined_before _, fun d => ha.tiles.mem_before_iff hcuts⟩, ?_⟩
  rw [hoffences]
  simp

/-- A basis with an amount that is raised before the first court fee. -/
def earlyBasis : Basis where
  gross := (Schedule.constant ⟨.ofNat 7000, "register", "brutto"⟩).withChange
    (dayOf 2022 7 1) ⟨.ofNat 7300, "register", "brutto"⟩
  paid := .constant ⟨.ofNat 6800, "register", "utbetalt"⟩
  deduction := ⟨.ofNat 450, "register", "avkorting"⟩

theorem gross_on_earlyBasis (d : Date) :
    (earlyBasis.gross.on d).value = .ofNat 7000 ∨ (earlyBasis.gross.on d).value = .ofNat 7300 := by
  have hchanges : earlyBasis.gross.changes =
      [(dayOf 2022 7 1, ⟨.ofNat 7300, "register", "brutto"⟩)] := rfl
  rw [Schedule.on, hchanges]
  by_cases h : dayOf 2022 7 1 ≤ d
  · simp [h]
  · simp [h]
    exact .inl rfl

theorem earlyBasis_inRangeOn (d : Date) : earlyBasis.InRangeOn d := by
  have hded : earlyBasis.deduction.value = .ofNat 450 := rfl
  have hpaid : earlyBasis.paidOn d = 6800 := by
    norm_num [earlyBasis, Basis.paidOn, Schedule.on, Schedule.constant, Decimal.toRat_ofNat]
  constructor
  · rw [Basis.grossOn, hded]
    rcases gross_on_earlyBasis d with h | h <;> rw [h] <;>
      norm_num [Decimal.toRat_ofNat, Decimal.overflowBound, abs_lt]
  · intro c hc
    have howed : c = .ofNat 6550 ∨ c = .ofNat 6850 := by
      rw [hded] at hc
      rcases gross_on_earlyBasis d with h | h <;> rw [h] at hc
      · exact .inl (Except.ok.inj hc).symm
      · exact .inr (Except.ok.inj hc).symm
    rw [hpaid]
    rcases howed with rfl | rfl <;>
      norm_num [Decimal.toRat_ofNat, Decimal.overflowBound, abs_lt]

theorem run_invalid_iff_earlyBasis :
    let p : Period := ⟨newYear 2022, some (newYear 2024), by decide⟩
    (∀ d ∈ p, earlyBasis.InRangeOn d) ∧
    (∃ res, rule.run earlyBasis p = .ok res ∧
      ((∃ findings, res = .invalid findings) ↔ p.start < newYear 2023) ∧
      ∀ findings, res = .invalid findings →
        (∃ periods,
          findings.offences =
            [⟨about "RETTSGEBYR" "Gjeldende rettsgebyr", .noValidVariant, periods⟩] ∧
          periods.IsChain (fun q q' => q.stop = some q'.start) ∧
          ∀ d, (∃ q ∈ periods, d ∈ q) ↔ d ∈ p ∧ d < newYear 2023) ∧
        ∀ o ∈ findings.offences, o.reason ≠ .overflow) ∧
    ∃ findings, rule.run earlyBasis p = .ok (.invalid findings) ∧
      findings.offences = [⟨courtFee.info, .noValidVariant,
        [⟨newYear 2022, some (dayOf 2022 7 1), by decide⟩,
          ⟨dayOf 2022 7 1, some (newYear 2023), by decide⟩]⟩] :=
  ⟨fun d _ => earlyBasis_inRangeOn d, run_invalid_iff fun d _ => earlyBasis_inRangeOn d, _, rfl,
    rfl⟩

end Reconciliation

end DatedRules
