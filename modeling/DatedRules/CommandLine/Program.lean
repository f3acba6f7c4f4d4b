import DatedRules.CommandLine.Arguments
import DatedRules.Reconciliation.InputFile
import DatedRules.Reconciliation.Report

/-!
# The program

`respond` says what the program answers to its arguments: an exit code and the texts for the two
output streams. The code is 0 for success, 1 for an input that cannot be used, 2 for arguments that
cannot be read and also for a run that is invalid for part of the period, and 101 where a
computation ended in an overflow.
-/

namespace DatedRules.CommandLine

open DatedRules.Reconciliation (Basis InputError)

/-- What the program answers. -/
structure Response where
  code : Nat
  stdout : String
  stderr : String
deriving DecidableEq

/-- A file's content, or why it cannot be read. -/
abbrev Files := String → Except String String

/-- Why a reconciliation has no result. -/
inductive RunError
  | period (e : EmptyPeriod)
  | file (path reason : String)
  | input (path : String) (e : InputError)
  | overflow (o : Decimal.Overflow)

/-- The message of an error of the input. -/
def RunError.message : RunError → String
  | period e => e.message
  | file path reason => "cannot read " ++ path ++ ": " ++ reason
  | input path (.json fault) =>
    "invalid JSON in " ++ path ++ ": " ++ (InputError.json fault).message
  | input _ e => e.message
  | overflow o => o.message

/-- The result of a reconciliation over a period on the basis in a file. -/
def reconcile (files : Files) (path : String) (start : Date) (stop : Option Date) :
    Except RunError (RunResult Reconciliation.outcome) := do
  let period ← (Period.between start stop).mapError .period
  let text ← (files path).mapError (.file path)
  let basis ← (Basis.ofText text period.start).mapError (.input path)
  (Reconciliation.rule.run basis period).mapError .overflow

/-- An error message in the format of the output. -/
def errorText (output : Format) (message : String) : String :=
  let text := "error: " ++ message
  match output with
  | .text => text ++ "\n"
  | .json => (Json.object [("error", .string text)]).compact ++ "\n"

/-- The answer to a reconciliation. -/
def respondRun (output : Format) (quiet explain : Bool)
    (result : Except RunError (RunResult Reconciliation.outcome)) : Response :=
  match result with
  | .ok r =>
    let text := match output with
      | .text => Reconciliation.runText explain r
      | .json => (Reconciliation.runJson explain r).pretty ++ "\n"
    ⟨if r.isSuccess then 0 else 2, if quiet then "" else text, ""⟩
  | .error (.overflow o) => ⟨101, "", o.message ++ "\n"⟩
  | .error e => ⟨1, "", if quiet then "" else errorText output e.message⟩

/-- The list of the rules with the stamp. -/
def rulesText (output : Format) : String :=
  let references := Reconciliation.rule.appliedRules
  let stamp := Reconciliation.rule.stamp.toText
  match output with
  | .text => String.join (references.map fun r => r.toText ++ "\n") ++ "engine " ++ stamp ++ "\n"
  | .json =>
    (Json.object [
      ("engine_version", .string stamp),
      ("rules", .array (references.map fun r =>
        .object [("id", .string r.id), ("version", .string r.version)]))]).compact ++ "\n"

/-- What the program is, in one line. -/
def about : String := "Periodized rule runs with explanations"

/-- The help for a level. -/
def helpText : Level → String
  | .top =>
    about ++ "\n\nUsage: regel [OPTIONS] <COMMAND>\n\nCommands:\n" ++
      "  run      Run the reconciliation rules over a period\n" ++
      "  explain  Run and print the full explanation of every sub-period\n" ++
      "  rules    List the rules in the reconciliation library\n" ++
      "  help     Print this message or the help of the given subcommand(s)\n\n" ++
      options ++ "  -V, --version          Print version\n"
  | .rules =>
    "List the rules in the reconciliation library\n\nUsage: regel rules [OPTIONS]\n\n" ++ options
  | .run => "Run the reconciliation rules over a period\n\n" ++ periodHelp "run"
  | .explain => "Run and print the full explanation of every sub-period\n\n" ++ periodHelp "explain"
where
  options : String :=
    "Options:\n" ++
      "      --output <OUTPUT>  Output format (text or json) [default: text] " ++
      "[possible values: text, json]\n" ++
      "      --quiet            Suppress non-essential output\n" ++
      "  -h, --help             Print help\n"
  periodHelp (name : String) : String :=
    "Usage: regel " ++ name ++ " [OPTIONS] --from <FROM> <GRUNNLAG>\n\nArguments:\n" ++
      "  <GRUNNLAG>  Path to the grunnlag JSON file\n\n" ++ options ++
      "      --from <FROM>      First day of the period (YYYY-MM-DD)\n" ++
      "      --to <TO>          Day after the last day of the period; " ++
      "omit for an open-ended period\n"

/-- The answer where there is no command to carry out. No stream is taken for a terminal. -/
def respondInterrupt : Interrupt → Response
  | .help level => ⟨0, helpText level, ""⟩
  | .version => ⟨0, "regel 0.1.0\n", ""⟩
  | .nothing => ⟨2, "", helpText .top⟩
  | .error e =>
    ⟨2, "", Text.Terminal.plain ("error: " ++ e.message ++ "\n\nFor more information, try '" ++
      Text.Terminal.highlighted "--help" ++ "'.\n")⟩

/-- The answer to a request. -/
def respondRequest (files : Files) (r : Request) : Response :=
  match r.action with
  | .reconcile explain path start stop =>
    respondRun r.output r.quiet explain (reconcile files path start stop)
  | .listRules => ⟨0, if r.quiet then "" else rulesText r.output, ""⟩

/-- The answer to the arguments. -/
def respond (files : Files) (args : List String) : Response :=
  match readArguments args with
  | .ok r => respondRequest files r
  | .error i => respondInterrupt i

end DatedRules.CommandLine
