import DatedRules.CommandLine.Program

/-!
# The executable

Hands the arguments and the files of the system to `CommandLine.respond` and carries out its answer.
-/

open DatedRules.CommandLine

/-- Why the system did not read a file. -/
def reasonOf (e : IO.Error) : String :=
  match e with
  | .noFileOrDirectory _ code details
  | .inappropriateType (some _) code details
  | .permissionDenied (some _) code details =>
    details ++ " (os error " ++ toString code ++ ")"
  | e => e.toString

/-- A file's content as text. -/
def readText (path : String) : IO (Except String String) := do
  match ← (IO.FS.readBinFile path).toBaseIO with
  | .error e => return .error (reasonOf e)
  | .ok bytes =>
    match String.fromUTF8? bytes with
    | some text => return .ok text
    | none => return .error "stream did not contain valid UTF-8"

/-- The path of the file that the arguments ask for, if they do. -/
def pathOf (args : List String) : Option String :=
  match readArguments args with
  | .ok { action := .reconcile _ path _ _, .. } => some path
  | _ => none

def main (args : List String) : IO UInt32 := do
  let content ← match pathOf args with
    | some path => readText path
    | none => pure (.error "")
  let answer := respond (fun _ => content) args
  (← IO.getStdout).putStr answer.stdout
  (← IO.getStderr).putStr answer.stderr
  return UInt32.ofNat answer.code
