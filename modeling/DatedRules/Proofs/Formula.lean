import DatedRules.Proofs.Amounts
import DatedRules.Proofs.Explanation
import DatedRules.Proofs.Successes

/-!
# The formula of the reconciliation

What is owed for a date is the amount before the deduction, less the deduction, not below zero and
in whole kroner (`Basis.owedOn`). What was paid too much is demanded back where it is more than the
court fee of the date, and what was paid too little is paid out where it is more than a quarter of
that fee (`Outcome.Prescribed`).

The rule of the library gives exactly this on every date from 2023 on, as long as the two
differences are decimals (`Basis.FitsOn`): each rule below it is followed by the number that its
value stands for, and a run of it then is a success that has, for every date, the prescribed outcome
(`Reconciliation.run_reconciles`).
-/

namespace DatedRules

namespace Rule

variable {G : Type} {g : G} {d : Date} {α β γ τ : ValueType} {info : RuleInfo}

/-- The value of a rule without its explanation. -/
def valueOn (g : G) (d : Date) (r : Rule G τ) : Except Stop τ.Carrier :=
  (r.evaluate g d).map (·.value)

theorem valueOn_eq_ok_iff {r : Rule G τ} {v : τ.Carrier} :
    r.valueOn g d = .ok v ↔ ∃ e, r.evaluate g d = .ok e ∧ e.value = v := by
  unfold valueOn
  rcases r.evaluate g d with stop | e <;> simp [Except.map]

theorem valueOn_combine2 {a : Rule G α} {b : Rule G β} {x : α.Carrier} {y : β.Carrier}
    {f : α.Carrier → β.Carrier → Except Decimal.Overflow τ.Carrier} {v : τ.Carrier}
    (ha : a.valueOn g d = .ok x) (hb : b.valueOn g d = .ok y) (hf : f x y = .ok v) :
    (combine2 info a b f).valueOn g d = .ok v := by
  obtain ⟨x, hx, rfl⟩ := valueOn_eq_ok_iff.1 ha
  obtain ⟨y, hy, rfl⟩ := valueOn_eq_ok_iff.1 hb
  refine valueOn_eq_ok_iff.2 ⟨⟨v, info, .combine, [x.toNode, y.toNode]⟩, ?_, rfl⟩
  rw [evaluate, hx, hy]
  exact applied_eq_ok_iff.2 ⟨v, hf, rfl⟩

theorem valueOn_combine3 {a : Rule G α} {b : Rule G β} {c : Rule G γ} {x : α.Carrier}
    {y : β.Carrier} {z : γ.Carrier}
    {f : α.Carrier → β.Carrier → γ.Carrier → Except Decimal.Overflow τ.Carrier} {v : τ.Carrier}
    (ha : a.valueOn g d = .ok x) (hb : b.valueOn g d = .ok y) (hc : c.valueOn g d = .ok z)
    (hf : f x y z = .ok v) : (combine3 info a b c f).valueOn g d = .ok v := by
  obtain ⟨x, hx, rfl⟩ := valueOn_eq_ok_iff.1 ha
  obtain ⟨y, hy, rfl⟩ := valueOn_eq_ok_iff.1 hb
  obtain ⟨z, hz, rfl⟩ := valueOn_eq_ok_iff.1 hc
  refine valueOn_eq_ok_iff.2 ⟨⟨v, info, .combine, [x.toNode, y.toNode, z.toNode]⟩, ?_, rfl⟩
  rw [evaluate, hx, hy, hz]
  exact applied_eq_ok_iff.2 ⟨v, hf, rfl⟩

theorem exists_collect_eq {as : List (Rule G τ)} {xs : List τ.Carrier}
    (h : List.Forall₂ (fun a x => a.valueOn g d = .ok x) as xs) :
    ∃ es, collect (as.map fun a => a.evaluate g d) = .ok es ∧ es.map (·.value) = xs := by
  induction h with
  | nil => exact ⟨[], rfl, rfl⟩
  | cons hx _ ih =>
    obtain ⟨e, he, rfl⟩ := valueOn_eq_ok_iff.1 hx
    obtain ⟨es, hes, rfl⟩ := ih
    exact ⟨e :: es, collect_eq_ok_iff.2 (.cons he (collect_eq_ok_iff.1 hes)), rfl⟩

theorem valueOn_product {n : Nat} {factors : Fin n → Rule G .decimal} {xs : List Decimal}
    {v : Decimal}
    (h : List.Forall₂ (fun a x => a.valueOn g d = .ok x) (List.ofFn factors) xs)
    (hv : Decimal.product xs = some v) : (product info n factors).valueOn g d = .ok v := by
  obtain ⟨es, hes, rfl⟩ := exists_collect_eq h
  rw [List.map_ofFn] at hes
  refine valueOn_eq_ok_iff.2 ⟨⟨v, info, .multiply, es.map Evaluated.toNode⟩, ?_, rfl⟩
  rw [evaluate]
  refine bind_eq_ok_iff.2 ⟨es, hes, ?_⟩
  rw [hv]

theorem valueOn_variants {n : Nat} {candidates : Fin n → Rule G τ} {i : Fin n} {v : τ.Carrier}
    (hi : selected? (fun j => (candidates j).validFrom) d = some i)
    (h : (candidates i).valueOn g d = .ok v) :
    (variants info n candidates).valueOn g d = .ok v := by
  obtain ⟨e, he, rfl⟩ := valueOn_eq_ok_iff.1 h
  simp only [valueOn, evaluate, hi, he]
  rfl

end Rule

namespace Reconciliation

/-- The court fees in kroner, with the days from which they are in force. -/
def yearlyFees : List (Date × ℕ) :=
  [(dayOf 2023 1 1, 1243), (dayOf 2024 1 1, 1277), (dayOf 2025 1 1, 1314)]

/-- The court fee in force: the one with the latest day up to then. -/
def feeOn? (d : Date) : Option ℕ := (latest? Prod.fst d yearlyFees).map Prod.snd

namespace Basis

variable (g : Basis) (d : Date)

/-- The amount before the deduction as a number. -/
def grossOn : ℚ := (g.gross.on d).value.toRat

/-- The amount as paid out as a number. -/
def paidOn : ℚ := (g.paid.on d).value.toRat

/-- The amount that should have been paid, in whole kroner. -/
def owedOn : ℤ := roundHalfAway (max 0 (g.grossOn d - g.deduction.value.toRat))

/-- Whether the two differences of a date are decimals at the larger of the scales of their
operands; for the second, what is owed has no decimal places. -/
structure FitsOn : Prop where
  gross : Decimal.Representable (g.grossOn d - g.deduction.value.toRat)
    (Nat.max (g.gross.on d).value.scale g.deduction.value.scale)
  paid : Decimal.Representable (g.paidOn d - g.owedOn d) (g.paid.on d).value.scale

end Basis

/-- Whether an outcome is the prescribed one for a difference and a court fee. -/
structure Outcome.Prescribed (o : Outcome) (difference fee : ℚ) : Prop where
  difference_eq : o.difference.toRat = difference
  demanded_iff : o.kind = .tilbakekreving ↔ fee < difference
  paidOut_iff : o.kind = .etterbetaling ↔ difference < -(fee / 4)
  unchanged_iff : o.kind = .ingenEndring ↔ ¬ fee < difference ∧ ¬ difference < -(fee / 4)

theorem classify_prescribed {difference courtFee limit : Decimal} (hfee : 0 ≤ courtFee.toRat)
    (hlimit : limit.toRat = courtFee.toRat / 4) :
    (classify difference courtFee limit).Prescribed difference.toRat courtFee.toRat := by
  have hback : courtFee.less difference = true ↔ courtFee.toRat < difference.toRat :=
    Decimal.less_iff
  have hout : difference.less limit.neg = true ↔ difference.toRat < -(courtFee.toRat / 4) := by
    rw [Decimal.less_iff, Decimal.toRat_neg, hlimit]
  have hnot : courtFee.toRat < difference.toRat → ¬ difference.toRat < -(courtFee.toRat / 4) := by
    intro h h'
    linarith
  unfold classify
  constructor
  · rfl
  all_goals
    simp only [hback, hout]
    by_cases h₁ : courtFee.toRat < difference.toRat
    · simp [h₁, hnot h₁]
    · by_cases h₂ : difference.toRat < -(courtFee.toRat / 4) <;> simp [h₁, h₂]

theorem exists_owed_eq {gross deduction : Decimal}
    (h : Decimal.Representable (gross.toRat - deduction.toRat)
      (Nat.max gross.scale deduction.scale)) :
    ∃ c, owed gross deduction = .ok c ∧
      c.toRat = roundHalfAway (max 0 (gross.toRat - deduction.toRat)) ∧ c.scale = 0 := by
  obtain ⟨a, ha, hval⟩ := Decimal.exists_sub_eq h
  refine ⟨_, by rw [owed, ha]; rfl, ?_, Decimal.scale_apply_whole _ _⟩
  rw [Decimal.toRat_apply_whole, Decimal.toRat_max, hval, Decimal.toRat_of_isZero (a := .zero) rfl,
    max_comm]

variable {g : Basis} {d : Date}

theorem exists_valueOn_owedRule (h : g.FitsOn d) :
    ∃ c, owedRule.valueOn g d = .ok c ∧ c.toRat = g.owedOn d ∧ c.scale = 0 := by
  obtain ⟨c, hc, hval, hscale⟩ := exists_owed_eq h.gross
  exact ⟨c, Rule.valueOn_combine2 rfl rfl hc, hval, hscale⟩

theorem exists_valueOn_differenceRule (h : g.FitsOn d) :
    ∃ c, differenceRule.valueOn g d = .ok c ∧ c.toRat = g.paidOn d - g.owedOn d := by
  obtain ⟨b, hb, hval, hscale⟩ := exists_valueOn_owedRule h
  have hrep : Decimal.Representable ((g.paid.on d).value.toRat - b.toRat)
      (Nat.max (g.paid.on d).value.scale b.scale) := by
    have hmax : Nat.max (g.paid.on d).value.scale 0 = (g.paid.on d).value.scale := Nat.max_zero _
    rw [hval, hscale, hmax]
    exact h.paid
  obtain ⟨c, hc, hval'⟩ := Decimal.exists_sub_eq hrep
  exact ⟨c, Rule.valueOn_combine2 rfl hb hc, by rw [hval', hval]; rfl⟩

theorem yearlyFees_lt : ∀ y ∈ yearlyFees, y.2 * 25 < 2 ^ 96 := by
  decide

theorem validFrom_courtFees : ∀ i : Fin 3, (courtFees.get i).validFrom = (yearlyFees.get i).1
  | 0 | 1 | 2 => rfl

/-- From the first day of the rules on there is a court fee, and it is the value of its rule. -/
theorem exists_valueOn_courtFee (hd : newYear 2023 ≤ d) :
    ∃ fee h, feeOn? d = some fee ∧ courtFee.valueOn g d = .ok (.ofNat fee h) ∧
      fee * 25 < 2 ^ 96 := by
  obtain ⟨i, hi⟩ : ∃ i : Fin 3, Rule.selected? (fun j => (courtFees.get j).validFrom) d = some i :=
    exists_selected? (i := 0) hd
  have hlatest : latest? Prod.fst d yearlyFees = some (yearlyFees.get i) := by
    have hdates := congrArg (Rule.selected? · d) (funext validFrom_courtFees)
    have hasc : ∀ j k : Fin 3, j < k → (yearlyFees.get j).1 < (yearlyFees.get k).1 := by decide
    exact @latest?_of_selected? 3 d i _ Prod.fst yearlyFees.get hasc (hdates.symm.trans hi)
  have hlt := yearlyFees_lt _ (List.get_mem yearlyFees i)
  refine ⟨(yearlyFees.get i).2, by omega, ?_, Rule.valueOn_variants hi ?_, hlt⟩
  · rw [feeOn?, hlatest]
    rfl
  · match i with
    | 0 | 1 | 2 => rfl

theorem exists_valueOn_limitRule {fee : ℕ} {h : fee < 2 ^ 96}
    (hfee : courtFee.valueOn g d = .ok (.ofNat fee h)) (hlt : fee * 25 < 2 ^ 96) :
    ∃ c, limitRule.valueOn g d = .ok c ∧ c.toRat = fee / 4 := by
  obtain ⟨c, hc, hval⟩ := Decimal.exists_product_pair_eq (a := .ofNat fee h)
    (b := ⟨false, 25, 2, by decide, by decide⟩) hlt (show 0 + 2 ≤ 28 by decide)
  refine ⟨c, Rule.valueOn_product (.cons hfee (.cons rfl .nil)) hc, ?_⟩
  rw [hval, Decimal.toRat_ofNat, Decimal.toRat_of_not_negative rfl]
  norm_num
  ring

theorem exists_valueOn_rule (hd : newYear 2023 ≤ d) (h : g.FitsOn d) :
    ∃ fee o, feeOn? d = some fee ∧ rule.valueOn g d = .ok o ∧
      o.Prescribed (g.paidOn d - g.owedOn d) fee := by
  obtain ⟨x, hx, hdiff⟩ := exists_valueOn_differenceRule h
  obtain ⟨fee, hlt, hfee, hy, hlt'⟩ := exists_valueOn_courtFee (g := g) hd
  obtain ⟨z, hz, hlimit⟩ := exists_valueOn_limitRule hy hlt'
  have hnum := Decimal.toRat_ofNat fee hlt
  have ho : (classify x (.ofNat fee hlt) z).Prescribed x.toRat (Decimal.ofNat fee hlt).toRat :=
    classify_prescribed (by rw [hnum]; positivity) (by rw [hlimit, hnum])
  rw [hdiff, hnum] at ho
  exact ⟨fee, _, hfee, Rule.valueOn_combine3 hx hy hz rfl, ho⟩

theorem rule_steadyOn (g : Basis) : rule.SteadyOn g := by
  have hfee : courtFee.SteadyOn g := fun i => match i with
    | ⟨0, _⟩ | ⟨1, _⟩ | ⟨2, _⟩ => trivial
  have hlimit : limitRule.SteadyOn g := fun i => match i with
    | ⟨0, _⟩ => hfee
    | ⟨1, _⟩ => trivial
  exact ⟨⟨g.paid.steady_varying, g.gross.steady_varying, trivial⟩, hfee, hlimit⟩

/-- A run of the reconciliation has, for every date of a period from 2023 on, the prescribed
outcome. -/
theorem run_reconciles {g : Basis} {p : Period} (hp : newYear 2023 ≤ p.start)
    (hfits : ∀ d ∈ p, g.FitsOn d) :
    ∃ results, rule.run g p = .ok (.success results rule.stamp) ∧
      ∀ d ∈ p, ∃ e fee, (RunResult.success results rule.stamp).on? d = some e ∧
        feeOn? d = some fee ∧ e.value.Prescribed (g.paidOn d - g.owedOn d) fee := by
  have hvalue : ∀ d ∈ p, ∃ e fee, rule.evaluate g d = .ok e ∧ feeOn? d = some fee ∧
      e.value.Prescribed (g.paidOn d - g.owedOn d) fee := by
    intro d hd
    obtain ⟨fee, o, hfee, ho, hpre⟩ :=
      exists_valueOn_rule (Date.le_trans hp hd.1) (hfits d hd)
    obtain ⟨e, he, rfl⟩ := Rule.valueOn_eq_ok_iff.1 ho
    exact ⟨e, fee, he, hfee, hpre⟩
  obtain ⟨results, hrun⟩ := (Rule.exists_success_iff (rule_steadyOn g)).2 fun d hd =>
    let ⟨e, _, he, _⟩ := hvalue d hd
    ⟨e, he⟩
  refine ⟨results, hrun, fun d hd => ?_⟩
  obtain ⟨e, fee, he, hfee, hpre⟩ := hvalue d hd
  obtain ⟨e', he', hon⟩ := Rule.on?_of_success (rule_steadyOn g) hrun hd
  rw [he, Except.ok.injEq] at he'
  subst he'
  exact ⟨e, fee, hon, hfee, hpre⟩

/-- A basis with amounts of different scales, one of which is raised in July 2024. -/
def unevenBasis : Basis where
  gross := (Schedule.constant
      ⟨⟨false, 100005, 1, by decide, by decide⟩, "register", "brutto"⟩).withChange
    (dayOf 2024 7 1) ⟨.ofNat 12000, "register", "brutto"⟩
  paid := .constant ⟨.ofNat 9760, "register", "utbetalt"⟩
  deduction := ⟨⟨false, 1500125, 3, by decide, by decide⟩, "register", "avkorting"⟩

theorem gross_on_unevenBasis (d : Date) : (unevenBasis.gross.on d).value =
    if dayOf 2024 7 1 ≤ d then .ofNat 12000 else ⟨false, 100005, 1, by decide, by decide⟩ := by
  have hchanges : unevenBasis.gross.changes =
      [(dayOf 2024 7 1, ⟨.ofNat 12000, "register", "brutto"⟩)] := rfl
  rw [Schedule.on, hchanges]
  by_cases h : dayOf 2024 7 1 ≤ d
  · simp [h]
  · simp [h]
    rfl

theorem unevenBasis_fitsOn (d : Date) : unevenBasis.FitsOn d := by
  have hded : unevenBasis.deduction.value.toRat = 1500.125 := by
    norm_num [unevenBasis, Decimal.toRat, Decimal.signed]
  have hpaid : unevenBasis.paidOn d = 9760 := by
    norm_num [unevenBasis, Basis.paidOn, Schedule.on, Schedule.constant, Decimal.toRat_ofNat]
  have hwhole : (unevenBasis.paid.on d).value.scale = 0 := rfl
  have hgross : unevenBasis.grossOn d = if dayOf 2024 7 1 ≤ d then 12000 else 10000.5 := by
    rw [Basis.grossOn, gross_on_unevenBasis]
    split <;> norm_num [Decimal.toRat, Decimal.signed, Decimal.ofNat]
  have howed : unevenBasis.owedOn d = if dayOf 2024 7 1 ≤ d then 10500 else 8500 := by
    rw [Basis.owedOn, hgross, hded]
    split <;> norm_num [roundHalfAway]
  constructor
  · rw [hgross, hded, gross_on_unevenBasis]
    split
    · exact ⟨10499875, by decide, by norm_num [Decimal.ofNat, unevenBasis]⟩
    · exact ⟨8500375, by decide, by norm_num [unevenBasis]⟩
  · rw [hpaid, howed, hwhole]
    split
    · exact ⟨-740, by decide, by norm_num⟩
    · exact ⟨1260, by decide, by norm_num⟩

theorem run_reconciles_unevenBasis : newYear 2023 ≤ (Period.openFrom (newYear 2023)).start ∧
    (∀ d ∈ Period.openFrom (newYear 2023), unevenBasis.FitsOn d) ∧
    (∃ results,
      rule.run unevenBasis (.openFrom (newYear 2023)) = .ok (.success results rule.stamp) ∧
      ∀ d ∈ Period.openFrom (newYear 2023), ∃ e fee,
        (RunResult.success results rule.stamp).on? d = some e ∧ feeOn? d = some fee ∧
          e.value.Prescribed (unevenBasis.paidOn d - unevenBasis.owedOn d) fee) ∧
    ((rule.run unevenBasis (.openFrom (newYear 2023))).map fun res =>
      [newYear 2023, newYear 2024, dayOf 2024 7 1].map fun d => (res.on? d).map (·.value.kind)) =
        .ok [some .tilbakekreving, some .ingenEndring, some .etterbetaling] :=
  ⟨Date.le_refl _, fun d _ => unevenBasis_fitsOn d,
    run_reconciles (Date.le_refl _) fun d _ => unevenBasis_fitsOn d, rfl⟩

end Reconciliation

end DatedRules
