import DatedRules.Json.Skip

/-!
# Reading records

A record with named fields is written as an object or as an array of its fields in order. Fields of
an object may come in any order and among others that are passed over; the same field may not come
twice. `Record.read` reads such a record into a state that starts blank and that each field is put
into; when the end of an object is reached, the state is finished or a field is missing.
-/

namespace DatedRules.Json

/-- Whether another item comes before the closing bracket of an array. -/
def nextItem (first : Bool) (cs : List Char) : Except Fault (Option (List Char)) :=
  match skipBlanks cs with
  | [] => .error .unfinished
  | ']' :: _ => .ok none
  | c :: cs =>
    if first then .ok (some (c :: cs))
    else if c = ',' then
      match skipBlanks cs with
      | [] => .error .unfinished
      | ']' :: _ => .error .malformed
      | cs => .ok (some cs)
    else .error .malformed

/-- Takes the closing bracket of an array. -/
def closeArray (cs : List Char) : Except Fault (List Char) :=
  match skipBlanks cs with
  | [] => .error .unfinished
  | ']' :: cs => .ok cs
  | _ => .error .malformed

/-- The name of the next field, if another comes before the closing brace of an object. -/
def nextKey (first : Bool) (cs : List Char) : Except Fault (Option (String × List Char)) :=
  match skipBlanks cs with
  | [] => .error .unfinished
  | '\x7d' :: _ => .ok none
  | c :: cs =>
    if first then key (c :: cs)
    else if c = ',' then
      match skipBlanks cs with
      | [] => .error .unfinished
      | cs => key cs
    else .error .malformed
where
  key : List Char → Except Fault (Option (String × List Char))
    | '"' :: cs => return some (← stringTail cs)
    | _ => .error .malformed

/-- Takes the colon after a field's name. -/
def colon (cs : List Char) : Except Fault (List Char) :=
  match skipBlanks cs with
  | [] => .error .unfinished
  | ':' :: cs => .ok cs
  | _ => .error .malformed

/-- Takes a string. -/
def readString : Reader String := fun cs =>
  match skipBlanks cs with
  | '"' :: cs => stringTail cs
  | cs => unexpected "a string" cs

/-- Takes null or what another reader takes. -/
def readOptional {α : Type} (read : Reader α) : Reader (Option α) := fun cs =>
  match skipBlanks cs with
  | 'n' :: cs => do return (none, ← word ['u', 'l', 'l'] cs)
  | cs => do
    let (a, cs) ← read cs
    return (some a, cs)

/-- Takes the items of an array up to its closing bracket, at most `count` of them. -/
def items {α : Type} (read : Reader α) : (count : Nat) → (first : Bool) → Reader (List α)
  | 0, _, _ => .error .unfinished
  | count + 1, first, cs => do
    match ← nextItem first cs with
    | none => return ([], cs)
    | some cs =>
      let (a, cs) ← read cs
      let (as, cs) ← items read count false cs
      return (a :: as, cs)

/-- Takes an array. -/
def readArray {α : Type} (read : Reader α) : Reader (List α) := fun cs =>
  match skipBlanks cs with
  | '[' :: cs => do
    let (as, cs) ← items read (cs.length + 1) true cs
    return (as, ← closeArray cs)
  | cs => unexpected "a sequence" cs

/-- A field of a record. -/
structure Slot (σ : Type) where
  name : String
  /-- Whether the field has been read. -/
  filled : σ → Bool
  read : σ → Reader σ
  /-- Whether an array may end before the field. -/
  optional : Bool

/-- The form of a record. -/
structure Record (σ ρ : Type) where
  name : String
  slots : List (Slot σ)
  blank : σ
  finish : σ → Except Fault ρ

namespace Record

variable {σ ρ : Type}

/-- Takes the fields of an object up to its closing brace, at most `count` of them. -/
def members (r : Record σ ρ) : (count : Nat) → (first : Bool) → σ → Reader σ
  | 0, _, _, _ => .error .unfinished
  | count + 1, first, s, cs => do
    match ← nextKey first cs with
    | none => return (s, cs)
    | some (name, cs) =>
      match r.slots.find? (fun slot => slot.name == name) with
      | none => members r count false s (← skipValue (← colon cs))
      | some slot =>
        if slot.filled s then .error (.mismatch (.duplicateField name))
        else do
          let (s, cs) ← slot.read s (← colon cs)
          members r count false s cs

/-- Takes the fields of an array in order; `index` counts those taken before. -/
def inOrder (r : Record σ ρ) (index : Nat) (s : σ) : List (Slot σ) → Reader σ
  | [], cs => .ok (s, cs)
  | slot :: slots, cs => do
    match ← nextItem (index == 0) cs with
    | some cs =>
      let (s, cs) ← slot.read s cs
      inOrder r (index + 1) s slots cs
    | none =>
      if slot.optional then inOrder r (index + 1) s slots cs
      else
        .error (.mismatch (.invalidLength index
          (r.name ++ " with " ++ toString r.slots.length ++ " elements")))

/-- Takes a record. -/
def read (r : Record σ ρ) : Reader ρ := fun cs =>
  match skipBlanks cs with
  | '\x7b' :: cs => do
    let (s, cs) ← r.members (cs.length + 1) true r.blank cs
    let a ← r.finish s
    match skipBlanks cs with
    | '\x7d' :: cs => return (a, cs)
    | _ => .error .malformed
  | '[' :: cs => do
    let (s, cs) ← r.inOrder 0 r.blank r.slots cs
    let a ← r.finish s
    return (a, ← closeArray cs)
  | cs => unexpected r.name cs

end Record

/-- The value of a field that has to be there. -/
def required {α : Type} (name : String) : Option α → Except Fault α
  | some a => .ok a
  | none => .error (.mismatch (.missingField name))

/-- Reads a whole text. -/
def readAll {α : Type} (read : Reader α) (text : String) : Except Fault α := do
  let (a, cs) ← read text.toList
  if (skipBlanks cs).isEmpty then return a else .error .malformed

end DatedRules.Json
