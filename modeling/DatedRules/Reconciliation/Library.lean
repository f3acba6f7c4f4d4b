import DatedRules.Rule.Definition
import DatedRules.Run

/-!
# The annual reconciliation

What was paid out is compared with what should have been paid after the final deduction for income.
The difference is demanded back if it is more than one court fee, and paid out if more than a
quarter of a court fee is owed; both limits themselves still change nothing.
-/

namespace DatedRules.Reconciliation

/-- The facts of a reconciliation: monthly amounts before the deduction and as paid out, and the
monthly deduction. -/
structure Basis where
  gross : Schedule (Fact Decimal)
  paid : Schedule (Fact Decimal)
  deduction : Fact Decimal

/-- What follows from a difference. -/
inductive OutcomeKind
  | tilbakekreving
  | etterbetaling
  | ingenEndring
deriving DecidableEq

namespace OutcomeKind

/-- The kind as reports have it. -/
def name : OutcomeKind → String
  | tilbakekreving => "TILBAKEKREVING"
  | etterbetaling => "ETTERBETALING"
  | ingenEndring => "INGEN_ENDRING"

/-- The kind as explanations have it. -/
def title : OutcomeKind → String
  | tilbakekreving => "Tilbakekreving"
  | etterbetaling => "Etterbetaling"
  | ingenEndring => "IngenEndring"

end OutcomeKind

/-- The outcome of a reconciliation. The difference is positive where too much was paid. -/
structure Outcome where
  kind : OutcomeKind
  difference : Decimal
deriving DecidableEq

def Outcome.toText (o : Outcome) : String :=
  "Outcome \x7b kind: " ++ o.kind.title ++ ", differanse: " ++ o.difference.toText ++ " \x7d"

/-- Outcomes as values of rules. -/
abbrev outcome : ValueType := ⟨Outcome, Outcome.toText⟩

/-- What follows from a difference, given the court fee and the limit for paying out. -/
def classify (difference courtFee limit : Decimal) : Outcome where
  kind :=
    if courtFee.less difference then .tilbakekreving
    else if difference.less limit.neg then .etterbetaling
    else .ingenEndring
  difference := difference

/-- What should have been paid: the amount less the deduction, not below zero, in whole kroner. -/
def owed (gross deduction : Decimal) : Except Decimal.Overflow Decimal :=
  return (Rounding.whole .midpointAwayFromZero).apply ((← gross.sub deduction).max .zero)

/-- The first day of a year. -/
def newYear (year : Int) (h : -9999 ≤ year ∧ year ≤ 9999 := by decide) : Date where
  year := year
  month := 1
  day := 1
  year_mem := h
  isDay := ⟨by decide, by decide, by decide, show 1 ≤ 31 by decide⟩

/-- The day from which the rules are valid. -/
def validFrom : Date := newYear 2023

/-- The version of all rules. -/
def version : String := "2024.1"

/-- The information on a rule of the library. -/
def about (id description : String) (validFrom : Date := validFrom) : RuleInfo :=
  ⟨validFrom, description, ⟨id, version⟩⟩

/-- The court fee of one year. -/
def courtFeeOf (id : String) (validFrom : Date) (fee : Decimal) : Rule Basis .decimal :=
  .constant (about id "Rettsgebyr" validFrom) fee

/-- The court fees of the years that have one. -/
def courtFees : List (Rule Basis .decimal) := [
  courtFeeOf "RETTSGEBYR-2023" (newYear 2023) (.ofNat 1243),
  courtFeeOf "RETTSGEBYR-2024" (newYear 2024) (.ofNat 1277),
  courtFeeOf "RETTSGEBYR-2025" (newYear 2025) (.ofNat 1314)]

/-- The court fee in force. -/
def courtFee : Rule Basis .decimal :=
  .variants (about "RETTSGEBYR" "Gjeldende rettsgebyr") courtFees.length courtFees.get

/-- The monthly amount before the deduction. -/
def grossRule : Rule Basis .decimal :=
  .extractAt (about "BRUTTO" "Ytelse før avkorting") fun b => b.gross.varying

/-- The monthly deduction. -/
def deductionRule : Rule Basis .decimal :=
  .extract (about "AVKORTING" "Avkorting etter endelig inntekt") fun b => b.deduction

/-- The monthly amount as paid out. -/
def paidRule : Rule Basis .decimal :=
  .extractAt (about "UTBETALT" "Utbetalt ytelse") fun b => b.paid.varying

/-- The monthly amount that should have been paid. -/
def owedRule : Rule Basis .decimal :=
  .combine2 (about "NY-YTELSE" "Ytelse etter avkorting") grossRule deductionRule owed

/-- What was paid too much. -/
def differenceRule : Rule Basis .decimal :=
  .combine2 (about "DIFFERANSE" "Utbetalt minus ny ytelse") paidRule owedRule Decimal.sub

/-- The share of a court fee above which an amount owed is paid out. -/
def shareRule : Rule Basis .decimal :=
  .constant (about "ANDEL-ETTERBETALING" "Andel rettsgebyr for etterbetaling")
    ⟨false, 25, 2, by decide, by decide⟩

/-- The factors of the limit for paying out. -/
def limitFactors : List (Rule Basis .decimal) := [courtFee, shareRule]

/-- The limit for paying out. -/
def limitRule : Rule Basis .decimal :=
  .product (about "TERSKEL-ETTERBETALING" "Terskel for etterbetaling") limitFactors.length
    limitFactors.get

/-- The outcome of the reconciliation. -/
def rule : Rule Basis outcome :=
  .combine3 (about "ETTEROPPGJOER-RESULTAT" "Resultat av etteroppgjør")
    differenceRule courtFee limitRule
    fun difference fee limit => .ok (classify difference fee limit)

end DatedRules.Reconciliation
