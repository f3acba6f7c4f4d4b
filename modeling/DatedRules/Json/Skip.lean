import DatedRules.Json.Lexical

/-!
# Skipping JSON

A value that nobody asked for is passed over character by character, however deeply nested it is.
Only its form is looked at: numbers may have any size, and escapes may stand for half a character.
-/

namespace DatedRules.Json.Skip

/-- What encloses a value. -/
inductive Frame
  | array
  | map
deriving DecidableEq

/-- How far a number has been read. -/
inductive NumberState
  | sign
  | zero
  | whole
  | point
  | places
  | mark
  | exponentSign
  | exponent
deriving DecidableEq

/-- What may come next. -/
inductive State
  | value
  | opened (frame : Frame)
  | key
  | colon
  | text (isKey : Bool)
  | escape (isKey : Bool)
  | hex (isKey : Bool) (seen : List Char)
  | word (letters : List Char)
  | number (n : NumberState)
  | after (frame : Frame)

/-- What a character leads to: another state with what encloses it, or the end of the value, before
or after the character. -/
inductive Step
  | more (state : State) (frames : List Frame)
  | endBefore
  | endAfter

/-- After the last character of a value. -/
def close : List Frame → Step
  | [] => .endAfter
  | f :: fs => .more (.after f) (f :: fs)

/-- The first character of a value. -/
def start (frames : List Frame) (c : Char) : Except Fault Step :=
  match c with
  | 'n' => .ok (.more (.word ['u', 'l', 'l']) frames)
  | 't' => .ok (.more (.word ['r', 'u', 'e']) frames)
  | 'f' => .ok (.more (.word ['a', 'l', 's', 'e']) frames)
  | '-' => .ok (.more (.number .sign) frames)
  | '0' => .ok (.more (.number .zero) frames)
  | '"' => .ok (.more (.text false) frames)
  | '[' => .ok (.more (.opened .array) (.array :: frames))
  | '\x7b' => .ok (.more (.opened .map) (.map :: frames))
  | c => if isDigit c then .ok (.more (.number .whole) frames) else .error .malformed

/-- A character after a value inside a frame. -/
def afterValue (frame : Frame) (frames : List Frame) (c : Char) : Except Fault Step :=
  if isBlank c then .ok (.more (.after frame) frames)
  else
    match frame, c with
    | .array, ',' => .ok (.more .value frames)
    | .map, ',' => .ok (.more .key frames)
    | .array, ']' => .ok (close frames.tail)
    | .map, '\x7d' => .ok (close frames.tail)
    | _, _ => .error .malformed

/-- How a number goes on with a character: with a state, not at all if it is complete, or
wrongly. -/
def extend (n : NumberState) (c : Char) : Except Fault (Option NumberState) :=
  match n with
  | .sign => if c = '0' then .ok (some .zero) else digit .whole
  | .zero => if isDigit c then .error .malformed else complete
  | .whole => if isDigit c then .ok (some .whole) else complete
  | .point => digit .places
  | .places => if isDigit c then .ok (some .places) else if c = '.' then .ok none else complete
  | .mark => if c = '+' ∨ c = '-' then .ok (some .exponentSign) else digit .exponent
  | .exponentSign => digit .exponent
  | .exponent => if isDigit c then .ok (some .exponent) else .ok none
where
  digit (n : NumberState) : Except Fault (Option NumberState) :=
    if isDigit c then .ok (some n) else .error .malformed
  complete : Except Fault (Option NumberState) :=
    if c = '.' then .ok (some .point)
    else if c = 'e' ∨ c = 'E' then .ok (some .mark)
    else .ok none

/-- After the closing quote of a string. -/
def closeText (isKey : Bool) (frames : List Frame) : Step :=
  if isKey then .more .colon frames else close frames

/-- What a character leads to. -/
def step (frames : List Frame) (c : Char) : State → Except Fault Step
  | .value => if isBlank c then .ok (.more .value frames) else start frames c
  | .opened .array =>
    if isBlank c then .ok (.more (.opened .array) frames)
    else if c = ']' then .ok (close frames.tail)
    else start frames c
  | .opened .map =>
    if isBlank c then .ok (.more (.opened .map) frames)
    else if c = '\x7d' then .ok (close frames.tail)
    else if c = '"' then .ok (.more (.text true) frames)
    else .error .malformed
  | .key =>
    if isBlank c then .ok (.more .key frames)
    else if c = '"' then .ok (.more (.text true) frames)
    else .error .malformed
  | .colon =>
    if isBlank c then .ok (.more .colon frames)
    else if c = ':' then .ok (.more .value frames)
    else .error .malformed
  | .text isKey =>
    if c = '"' then .ok (closeText isKey frames)
    else if c = '\\' then .ok (.more (.escape isKey) frames)
    else if c.toNat < 0x20 then .error .malformed
    else .ok (.more (.text isKey) frames)
  | .escape isKey =>
    if c = 'u' then .ok (.more (.hex isKey []) frames)
    else if (shortEscape? c).isSome then .ok (.more (.text isKey) frames)
    else .error .malformed
  | .hex isKey seen =>
    let seen := seen ++ [c]
    if byteCount seen < 4 then .ok (.more (.hex isKey seen) frames)
    else if seen.length = 4 ∧ seen.all (fun c => (hexDigit? c).isSome) then
      .ok (.more (.text isKey) frames)
    else .error .malformed
  | .word [] => .error .malformed
  | .word [l] => if c = l then .ok (close frames) else .error .malformed
  | .word (l :: ls) => if c = l then .ok (.more (.word ls) frames) else .error .malformed
  | .number n => do
    match ← extend n c with
    | some n => return .more (.number n) frames
    | none =>
      match frames with
      | [] => return .endBefore
      | f :: fs => afterValue f (f :: fs) c
  | .after frame => afterValue frame frames c

/-- The fault, if any, of a text that ends here. -/
def atEnd (frames : List Frame) : State → Except Fault Unit
  | .number n =>
    match n with
    | .sign | .point | .mark | .exponentSign => .error .malformed
    | _ => if frames.isEmpty then .ok () else .error .unfinished
  | _ => .error .unfinished

/-- What is left of a text after a value. -/
def run : State → List Frame → List Char → Except Fault (List Char)
  | state, frames, [] => do
    atEnd frames state
    return []
  | state, frames, c :: cs => do
    match ← step frames c state with
    | .more state frames => run state frames cs
    | .endBefore => return c :: cs
    | .endAfter => return cs

end DatedRules.Json.Skip

namespace DatedRules.Json

/-- Passes over a value. -/
def skipValue (cs : List Char) : Except Fault (List Char) := Skip.run .value [] cs

end DatedRules.Json
