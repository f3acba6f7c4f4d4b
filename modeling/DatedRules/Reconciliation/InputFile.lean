import DatedRules.Json.Record
import DatedRules.Reconciliation.Library

/-!
# The input file of a reconciliation

The file is a JSON record of the amounts before the deduction (`brutto`) and as paid out
(`utbetalt`), each a list of entries with a date, and of the deduction (`avkorting`). The entries of
a list may be in any order; of several on one date the last one counts. A list must not be empty,
and a reconciliation may not start before the first entry of either: there would be no amount on
record.
-/

namespace DatedRules.Reconciliation

open DatedRules.Json (Fault Reader Record Slot)

/-- An amount from a date on. -/
structure AmountEntry where
  since : String
  amount : Decimal
  source : String
deriving DecidableEq

/-- An amount with a description of its own, if it has one. -/
structure AmountFact where
  amount : Decimal
  source : String
  description : Option String
deriving DecidableEq

/-- The records of a file. -/
structure InputFile where
  gross : List AmountEntry
  paid : List AmountEntry
  deduction : AmountFact
deriving DecidableEq

/-- Takes a decimal, written as a string. -/
def readAmount : Reader Decimal := fun cs =>
  let expected := "a Decimal type representing a fixed-point number"
  match Json.skipBlanks cs with
  | '"' :: cs => do
    let (text, cs) ← Json.stringTail cs
    match Decimal.ofText? text with
    | some a => return (a, cs)
    | none => .error (.mismatch (.invalidValue (.string text) expected))
  | cs => Json.unexpected expected cs

/-- The slot of a field that puts what it reads into a state. -/
def slot {σ α : Type} (name : String) (get : σ → Option α) (set : σ → α → σ) (read : Reader α)
    (optional : Bool := false) : Slot σ where
  name := name
  filled s := (get s).isSome
  read s cs := do
    let (a, cs) ← read cs
    return (set s a, cs)
  optional := optional

/-- The fields of an entry read so far. -/
structure EntryFields where
  since : Option String
  amount : Option Decimal
  source : Option String

def entryRecord : Record EntryFields AmountEntry where
  name := "struct AmountEntry"
  slots := [
    slot "fra" (·.since) (fun s a => { s with since := some a }) Json.readString,
    slot "beloep" (·.amount) (fun s a => { s with amount := some a }) readAmount,
    slot "kilde" (·.source) (fun s a => { s with source := some a }) Json.readString]
  blank := ⟨none, none, none⟩
  finish s := return {
    since := ← Json.required "fra" s.since
    amount := ← Json.required "beloep" s.amount
    source := ← Json.required "kilde" s.source }

/-- The fields of a fact read so far; a description may be there and be null. -/
structure FactFields where
  amount : Option Decimal
  source : Option String
  description : Option (Option String)

def factRecord : Record FactFields AmountFact where
  name := "struct AmountFact"
  slots := [
    slot "beloep" (·.amount) (fun s a => { s with amount := some a }) readAmount,
    slot "kilde" (·.source) (fun s a => { s with source := some a }) Json.readString,
    slot "beskrivelse" (·.description) (fun s a => { s with description := some a })
      (Json.readOptional Json.readString) true]
  blank := ⟨none, none, none⟩
  finish s := return {
    amount := ← Json.required "beloep" s.amount
    source := ← Json.required "kilde" s.source
    description := s.description.join }

/-- The fields of a file read so far. -/
structure FileFields where
  gross : Option (List AmountEntry)
  paid : Option (List AmountEntry)
  deduction : Option AmountFact

def fileRecord : Record FileFields InputFile where
  name := "struct GrunnlagFile"
  slots := [
    slot "brutto" (·.gross) (fun s a => { s with gross := some a })
      (Json.readArray entryRecord.read),
    slot "utbetalt" (·.paid) (fun s a => { s with paid := some a })
      (Json.readArray entryRecord.read),
    slot "avkorting" (·.deduction) (fun s a => { s with deduction := some a }) factRecord.read]
  blank := ⟨none, none, none⟩
  finish s := return {
    gross := ← Json.required "brutto" s.gross
    paid := ← Json.required "utbetalt" s.paid
    deduction := ← Json.required "avkorting" s.deduction }

/-- What is wrong with an input. -/
inductive InputError
  | json (fault : Fault)
  | date (e : DateError)
  | emptySchedule (field : String)
  | beforeFirstEntry (field : String) (first start : Date)

/-- The dated facts of a list of entries, in the order of the list. -/
def datedFacts (description : String) (entries : List AmountEntry) :
    Except DateError (List (Date × Fact Decimal)) :=
  entries.mapM fun e => return (← Date.read e.since, ⟨e.amount, e.source, description⟩)

/-- The schedule of a list of entries, for a reconciliation from a date on. -/
def scheduleOf (field description : String) (start : Date) (entries : List AmountEntry) :
    Except InputError (Schedule (Fact Decimal)) := do
  let dated ← (datedFacts description entries).mapError .date
  match dated.mergeSort (fun a b => a.1 ≤ b.1) with
  | [] => .error (.emptySchedule field)
  | first :: rest =>
    if start < first.1 then .error (.beforeFirstEntry field first.1 start)
    else return (Schedule.constant first.2).withChanges (first :: rest)

/-- The basis that a file records, for a reconciliation from a date on. -/
def InputFile.basis (file : InputFile) (start : Date) : Except InputError Basis := do
  let gross ← scheduleOf "brutto" "Ytelse før avkorting" start file.gross
  let paid ← scheduleOf "utbetalt" "Utbetalt ytelse" start file.paid
  return {
    gross := gross
    paid := paid
    deduction := {
      value := file.deduction.amount
      source := file.deduction.source
      description := file.deduction.description.getD "Avkorting etter endelig inntekt" } }

/-- The records of a text. -/
def InputFile.ofText (text : String) : Except Fault InputFile :=
  Json.readAll fileRecord.read text

/-- The basis that a text records, for a reconciliation from a date on. -/
def Basis.ofText (text : String) (start : Date) : Except InputError Basis := do
  let file ← (InputFile.ofText text).mapError .json
  file.basis start

def InputError.message : InputError → String
  | json (.mismatch m) => m.message
  | json .malformed => "malformed JSON"
  | json .unfinished => "unexpected end of JSON"
  | date e => e.message
  | emptySchedule field => "'" ++ field ++ "' must have at least one entry"
  | beforeFirstEntry field first start =>
    "period starts " ++ start.toText ++ ", before the first '" ++ field ++ "' entry (" ++
      first.toText ++ ")"

end DatedRules.Reconciliation
