import DatedRules.Calendar.Date
import DatedRules.Text.Terminal

/-!
# Arguments

The command line is `regel`, options, a command and its own arguments. The options `--output` and
`--quiet` may stand before or after the command; where both places have one, the later counts. An
option's value is the next argument or follows an equals sign, and after `--` there are no more
options.

Arguments are read from left to right and the first error is reported. The value of an option or
operand is looked at only when the next one is reached or the arguments end, so that an argument
that is unknown is reported before a wrong value right in front of it. What is missing is reported
last.
-/

namespace DatedRules.CommandLine

/-- How results and errors are written. -/
inductive Format
  | text
  | json
deriving DecidableEq

/-- What takes a value, and the flag. -/
inductive Param
  | output
  | quiet
  | path
  | start
  | stop
deriving DecidableEq

/-- A parameter as messages have it. -/
def Param.display : Param → String
  | output => "--output <OUTPUT>"
  | quiet => "--quiet"
  | path => "<GRUNNLAG>"
  | start => "--from <FROM>"
  | stop => "--to <TO>"

/-- The part of the command line that is being read. -/
inductive Level
  | top
  | run
  | explain
  | rules
deriving DecidableEq

def Level.name : Level → String
  | top => "regel"
  | run => "run"
  | explain => "explain"
  | rules => "rules"

/-- Whether a command takes a file and a period. -/
def Level.hasPeriod : Level → Bool
  | run | explain => true
  | top | rules => false

/-- The command of a name. -/
def command? (name : String) : Option Level :=
  [Level.run, .explain, .rules].find? fun l => l.name == name

/-- What is wrong with the arguments. -/
inductive UsageError
  | unexpectedArgument (arg : String)
  | unexpectedValue (value : String) (flag : String)
  | unrecognizedCommand (arg : String)
  | missingCommand
  | missingArguments (params : List Param)
  | missingValue (param : Param)
  | invalidChoice (value : String) (param : Param)
  | invalidValue (value : String) (param : Param) (reason : String)
  | repeated (param : Param)
deriving DecidableEq

/-- What the user wrote, between single quotes. -/
def quotedInput (text : String) : String := "'" ++ Text.Terminal.highlighted text ++ "'"

/-- The message for a terminal. -/
def UsageError.message : UsageError → String
  | unexpectedArgument arg => "unexpected argument " ++ quotedInput arg ++ " found"
  | unexpectedValue value flag =>
    "unexpected value " ++ quotedInput value ++ " for '" ++ flag ++
      "' found; no more were expected"
  | unrecognizedCommand arg => "unrecognized subcommand " ++ quotedInput arg
  | missingCommand => "'regel' requires a subcommand but one was not provided"
  | missingArguments params =>
    "the following required arguments were not provided:" ++
      String.join (params.map fun p => "\n  " ++ p.display)
  | missingValue param => "a value is required for '" ++ param.display ++ "' but none was supplied"
  | invalidChoice value param =>
    "invalid value " ++ quotedInput value ++ " for '" ++ param.display ++ "'"
  | invalidValue value param reason =>
    "invalid value " ++ quotedInput value ++ " for '" ++ param.display ++ "': " ++ reason
  | repeated param => "the argument '" ++ param.display ++ "' cannot be used multiple times"

/-- Why reading arguments ends without a command to carry out. -/
inductive Interrupt
  | error (e : UsageError)
  | help (level : Level)
  | version
  /-- There were no arguments at all. -/
  | nothing
deriving DecidableEq

/-- The values read so far. -/
structure Values where
  output : Option Format
  quiet : Bool
  path : Option String
  start : Option Date
  stop : Option Date
deriving DecidableEq

def Values.none : Values := ⟨.none, false, .none, .none, .none⟩

def readFormat? : String → Option Format
  | "text" => some .text
  | "json" => some .json
  | _ => .none

/-- Reads a date; its message is the reason of an error. -/
def readDate (param : Param) (value : String) : Except UsageError Date :=
  (Date.read value).mapError fun e => .invalidValue value param e.message

/-- Adds a parameter with its value, if it has one. -/
def Values.set (v : Values) (param : Param) : Option String → Except UsageError Values
  | .none =>
    match param with
    | .quiet => if v.quiet then .error (.repeated .quiet) else .ok { v with quiet := true }
    | param => .error (.missingValue param)
  | some value =>
    match param with
    | .output =>
      if v.output.isSome then .error (.repeated .output)
      else if value.isEmpty then .error (.missingValue .output)
      else
        match readFormat? value with
        | some f => .ok { v with output := some f }
        | .none => .error (.invalidChoice value .output)
    | .quiet => .error (.unexpectedValue value Param.quiet.display)
    | .path =>
      if value.isEmpty then .error (.missingValue .path) else .ok { v with path := some value }
    | .start =>
      if v.start.isSome then .error (.repeated .start)
      else return { v with start := some (← readDate .start value) }
    | .stop =>
      if v.stop.isSome then .error (.repeated .stop)
      else return { v with stop := some (← readDate .stop value) }

/-- How far the arguments of a level have been read. -/
structure Scan where
  values : Values
  /-- The last option or operand, whose value has not been looked at. -/
  pending : Option (Param × Option String)
  /-- Whether the next argument may be the value of the pending option. -/
  awaiting : Bool
  /-- Whether `--` was read. -/
  operandsOnly : Bool
  /-- Whether the operand was read. -/
  operandSeen : Bool
deriving DecidableEq

namespace Scan

def begin : Scan := ⟨.none, .none, false, false, false⟩

/-- Looks at the pending value. -/
def settle (s : Scan) : Except Interrupt Scan :=
  match s.pending with
  | none => .ok { s with awaiting := false }
  | some (param, value) =>
    match s.values.set param value with
    | .ok values => .ok { s with values := values, pending := none, awaiting := false }
    | .error e => .error (.error e)

/-- Adds a parameter at once. -/
def put (s : Scan) (param : Param) (value : Option String) : Except Interrupt Scan := do
  let s ← s.settle
  settle { s with pending := some (param, value) }

/-- Leaves a parameter pending. -/
def hold (s : Scan) (param : Param) (value : Option String) : Except Interrupt Scan := do
  let s ← s.settle
  return { s with pending := some (param, value), awaiting := value.isNone }

end Scan

/-- The option of a name that takes a value. -/
def option? (level : Level) (name : String) : Option Param :=
  match name with
  | "output" => some .output
  | "from" => if level.hasPeriod then some .start else none
  | "to" => if level.hasPeriod then some .stop else none
  | _ => none

/-- The name and the value, if any, of an argument such as `--name=value`. -/
def long? (arg : String) : Option (String × Option String) :=
  match arg.toList with
  | '-' :: '-' :: cs =>
    if cs.isEmpty then none
    else
      let name := String.ofList (cs.takeWhile (· != '='))
      match cs.dropWhile (· != '=') with
      | [] => some (name, none)
      | _ :: value => some (name, some (String.ofList value))
  | _ => none

/-- The letters of an argument such as `-h`. -/
def short? (arg : String) : Option (List Char) :=
  match arg.toList with
  | '-' :: c :: cs => if c = '-' then none else some (c :: cs)
  | _ => none

/-- Reads an argument with a name. -/
def readLong (level : Level) (s : Scan) (name : String) (value : Option String) :
    Except Interrupt Scan :=
  let flag (act : Scan → Except Interrupt Scan) : Except Interrupt Scan :=
    match value with
    | some value => .error (.error (.unexpectedValue value ("--" ++ name)))
    | none => act s
  match option? level name with
  | some param =>
    match value with
    | some value => s.put param (some value)
    | none => s.hold param none
  | none =>
    if name = "quiet" then flag fun s => s.put .quiet none
    else if name = "help" then flag fun s => do
      let _ ← s.settle
      .error (.help level)
    else if name = "version" ∧ level = .top then flag fun s => do
      let _ ← s.settle
      .error .version
    else .error (.error (.unexpectedArgument ("--" ++ name)))

/-- Reads an argument of letters. All of them end the reading. -/
def readShort (level : Level) (s : Scan) (letter : Char) : Interrupt :=
  let ending (i : Interrupt) : Interrupt :=
    match s.settle with
    | .ok _ => i
    | .error e => e
  if letter = 'h' then ending (.help level)
  else if letter = 'V' ∧ level = .top then ending .version
  else .error (.unexpectedArgument ("-" ++ String.ofList [letter]))

/-- Reads an operand. -/
def readOperand (level : Level) (s : Scan) (arg : String) : Except Interrupt Scan :=
  if level.hasPeriod ∧ ¬ s.operandSeen then do
    let s ← s.hold .path (some arg)
    return { s with operandSeen := true }
  else if level = .top ∧ ¬ (s.operandsOnly ∧ ((command? arg).isSome ∨ arg = "help")) then
    .error (.error (.unrecognizedCommand arg))
  else .error (.error (.unexpectedArgument arg))

/-- Reads the arguments of a level, up to a command at the top level. -/
def scan (level : Level) (s : Scan) : List String → Except Interrupt (Scan × List String)
  | [] => return (s, [])
  | arg :: args =>
    if s.operandsOnly then do scan level (← readOperand level s arg) args
    else if level = .top ∧ ¬ s.awaiting ∧ ((command? arg).isSome ∨ arg = "help") then
      .ok (s, arg :: args)
    else if arg = "--" then scan level { s with operandsOnly := true } args
    else
      match long? arg with
      | some (name, value) => do scan level (← readLong level s name value) args
      | none =>
        match short? arg with
        | some (letter :: _) => .error (readShort level s letter)
        | _ =>
          if s.awaiting then
            scan level
              { s with
                pending := s.pending.map fun p => (p.1, some arg)
                awaiting := false } args
          else do scan level (← readOperand level s arg) args

/-- What is asked for. -/
inductive Action
  | reconcile (explain : Bool) (path : String) (start : Date) (stop : Option Date)
  | listRules
deriving DecidableEq

/-- A command with its presentation. -/
structure Request where
  output : Format
  quiet : Bool
  action : Action
deriving DecidableEq

/-- Reads what comes after a command, to its end. -/
def readCommand (level : Level) (args : List String) : Except Interrupt Values := do
  let (s, _) ← scan level .begin args
  let s ← s.settle
  let missing :=
    (if s.values.path.isNone then [Param.path] else []) ++
      (if s.values.start.isNone then [Param.start] else [])
  if level.hasPeriod ∧ missing ≠ [] then .error (.error (.missingArguments missing))
  else return s.values

/-- The action of a command with its values. -/
def actionOf (level : Level) (v : Values) : Action :=
  match v.path, v.start with
  | some path, some start =>
    if level.hasPeriod then .reconcile (level == .explain) path start v.stop else .listRules
  | _, _ => .listRules

/-- Reads what comes after the command `help`. -/
def readHelp : List String → Interrupt
  | [] => .help .top
  | [arg] =>
    match command? arg with
    | some level => .help level
    | none => if arg = "help" then .help .top else .error (.unrecognizedCommand arg)
  | arg :: more :: _ =>
    if (command? arg).isSome ∨ arg = "help" then .error (.unrecognizedCommand more)
    else .error (.unrecognizedCommand arg)

/-- Reads all arguments. -/
def readArguments (args : List String) : Except Interrupt Request := do
  let (s, rest) ← scan .top .begin args
  match rest with
  | [] =>
    let s ← s.settle
    if s.values = .none then .error .nothing else .error (.error .missingCommand)
  | name :: args =>
    match command? name with
    | none => .error (readHelp args)
    | some level =>
      let v ← readCommand level args
      let top ← s.settle
      return {
        output := (v.output.or top.values.output).getD .text
        quiet := v.quiet || top.values.quiet
        action := actionOf level v }

end DatedRules.CommandLine
