import DatedRules.Period
import DatedRules.Rule.Evaluation
import DatedRules.Stamp

/-!
# Runs

A run cuts a period at every date from which a rule of the graph is valid or on which a fact that
the rule reads changes, and evaluates the rule once for each piece, on its first day. If all pieces
have a value the run is a success; else it reports which rules failed, why, and for which pieces,
and has no values at all.

`run` takes a basis that is the same throughout, `runVarying` one that itself varies over time: the
period is cut where that basis may change, too, and each piece is run on the basis of its first day.
-/

namespace DatedRules

/-- A piece of the period and the value for it. -/
structure PeriodResult (τ : ValueType) where
  period : Period
  result : Evaluated τ

/-- A rule that failed, why, and for which pieces. -/
structure Offence where
  rule : RuleInfo
  reason : Reason
  periods : List Period
deriving DecidableEq

/-- The findings of a run that failed somewhere. -/
structure InvalidRun where
  offences : List Offence
  stamp : Stamp
deriving DecidableEq

def InvalidRun.message (r : InvalidRun) : String :=
  "rule evaluation failed for part of the period (" ++ toString r.offences.length ++
    " rule(s), first: " ++
    (match r.offences with | [] => "" | o :: _ => o.rule.reference.toText) ++ ")"

/-- The outcome of a run. -/
inductive RunResult (τ : ValueType)
  | success (results : List (PeriodResult τ)) (stamp : Stamp)
  | invalid (findings : InvalidRun)

namespace RunResult

variable {τ : ValueType}

def isSuccess : RunResult τ → Bool
  | success _ _ => true
  | invalid _ => false

def stamp : RunResult τ → Stamp
  | success _ stamp => stamp
  | invalid findings => findings.stamp

/-- The value of the piece that holds the date, if the run was a success. -/
def on? (r : RunResult τ) (date : Date) : Option (Evaluated τ) :=
  match r with
  | success results _ => (results.find? fun p => date ∈ p.period).map (·.result)
  | invalid _ => none

end RunResult

/-- A piece of the period with its value or failure. -/
abbrev Outcome (τ : ValueType) := Period × Except Failure (Evaluated τ)

/-- Adds a failure to the findings: to the entry of the same rule and reason, or as a new one. -/
def record (rule : RuleInfo) (reason : Reason) (period : Period) : List Offence → List Offence
  | [] => [⟨rule, reason, [period]⟩]
  | o :: os =>
    if o.rule = rule ∧ o.reason = reason then ⟨rule, reason, o.periods ++ [period]⟩ :: os
    else o :: record rule reason period os

/-- The values among the outcomes, in order. -/
def successes {τ : ValueType} (outcomes : List (Outcome τ)) : List (PeriodResult τ) :=
  outcomes.filterMap fun
    | (period, .ok result) => some ⟨period, result⟩
    | (_, .error _) => none

/-- The failures among the outcomes, grouped by rule and reason. -/
def offences {τ : ValueType} (outcomes : List (Outcome τ)) : List Offence :=
  outcomes.foldl (fun found o =>
    match o with
    | (_, .ok _) => found
    | (period, .error f) => record f.rule f.reason period found) []

/-- The outcome of a run from the outcomes of its pieces. -/
def assemble {τ : ValueType} (stamp : Stamp) (outcomes : List (Outcome τ)) : RunResult τ :=
  match offences outcomes with
  | [] => .success (successes outcomes) stamp
  | found => .invalid ⟨found, stamp⟩

namespace Rule

variable {G : Type} {τ : ValueType}

/-- The stamp of a rule's definitions. -/
def stamp (r : Rule G τ) : Stamp := Stamp.of r.graph

/-- The pieces on each of which a rule and what it reads stay the same. -/
def pieces (r : Rule G τ) (g : G) (period : Period) : List Period :=
  period.partition (r.breakpoints.union (r.dataBreakpoints g))

/-- The outcome for one piece: that of its first day. An overflow inside a combining function ends
the run. -/
def outcome (r : Rule G τ) (g : G) (piece : Period) : Except Decimal.Overflow (Outcome τ) :=
  match r.evaluate g piece.start with
  | .ok e => .ok (piece, .ok e)
  | .error (.failure f) => .ok (piece, .error f)
  | .error (.overflow o) => .error o

/-- The outcomes for all pieces of a period. -/
def outcomes (r : Rule G τ) (g : G) (period : Period) :
    Except Decimal.Overflow (List (Outcome τ)) :=
  (r.pieces g period).mapM (r.outcome g)

/-- Runs a rule over a period on one basis. -/
def run (r : Rule G τ) (g : G) (period : Period) : Except Decimal.Overflow (RunResult τ) :=
  return assemble r.stamp (← r.outcomes g period)

/-- Runs a rule over a period on a basis that varies over time. -/
def runVarying (r : Rule G τ) (g : Varying G) (period : Period) :
    Except Decimal.Overflow (RunResult τ) := do
  let parts := period.partition (r.breakpoints.union g.breakpoints)
  let found ← parts.mapM fun part => r.outcomes (g.on part.start) part
  return assemble r.stamp found.flatten

end Rule

end DatedRules
