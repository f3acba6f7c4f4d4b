import DatedRules.Reconciliation.Library
import DatedRules.Report
import DatedRules.Text.Lines

/-!
# Reports on a reconciliation

The result of a run is reported as JSON or as text: a line for each piece of the period or for each
rule that failed, and the stamp at the end. With an explanation, the lines of its text follow the
line of their piece, four spaces further in.
-/

namespace DatedRules.Reconciliation

/-- The result for one piece as JSON. -/
def resultJson (explain : Bool) (r : PeriodResult outcome) : Json :=
  .object (
    ("differanse", .string r.result.value.difference.toText) ::
    (if explain then [("explanation", r.result.toNode.toJson)] else []) ++ [
    ("outcome", .string r.result.value.kind.name),
    ("period", r.period.toJson)])

/-- A rule that failed as JSON. -/
def offenceJson (o : Offence) : Json :=
  .object [
    ("periods", .array (o.periods.map Period.toJson)),
    ("reason", .string o.reason.name),
    ("rule", o.rule.toJson)]

/-- The result of a run as JSON. -/
def runJson (explain : Bool) : RunResult outcome → Json
  | .success results stamp =>
    .object [
      ("engine_version", .string stamp.toText),
      ("results", .array (results.map (resultJson explain))),
      ("status", .string "success")]
  | .invalid findings =>
    .object [
      ("engine_version", .string findings.stamp.toText),
      ("offending_rules", .array (findings.offences.map offenceJson)),
      ("status", .string "invalid_for_period")]

/-- The result for one piece as lines. -/
def resultText (explain : Bool) (r : PeriodResult outcome) : String :=
  r.period.toText ++ "  " ++ r.result.value.kind.name ++ "  differanse " ++
    r.result.value.difference.toText ++ "\n" ++
    if explain then String.join ((Text.lines r.result.toText).map fun l => "    " ++ l ++ "\n")
    else ""

/-- A rule that failed as a line. -/
def offenceText (o : Offence) : String :=
  "  " ++ o.rule.reference.toText ++ " (" ++ o.rule.description ++ ") " ++ o.reason.name ++ ": " ++
    ", ".intercalate (o.periods.map Period.toText) ++ "\n"

/-- The result of a run as text. -/
def runText (explain : Bool) (r : RunResult outcome) : String :=
  (match r with
    | .success results _ => String.join (results.map (resultText explain))
    | .invalid findings =>
      "rule run invalid for part of the period:\n" ++
        String.join (findings.offences.map offenceText)) ++
    "engine " ++ r.stamp.toText ++ "\n"

end DatedRules.Reconciliation
