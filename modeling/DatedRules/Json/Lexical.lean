import DatedRules.Text.Quoted
import DatedRules.Text.Shortest

/-!
# Reading JSON, symbol by symbol

Readers take characters off the front of a text and report the first fault they meet: the text is
malformed, it is unfinished, or it is JSON but not what was expected.

Strings have their escapes resolved; two escapes may stand for one character beyond the first plane,
and half of such a pair is malformed. Whole numbers of 64 bits are read as such and all others as
floating-point numbers, which are out of range where they would be infinite.
-/

namespace DatedRules.Json

/-- What was found where something else was expected. -/
inductive Found
  | null
  | boolean (b : Bool)
  | integer (n : Int)
  | floating (x : Float)
  | string (text : String)
  | sequence
  | map

def Found.text : Found → String
  | null => "null"
  | boolean b => "boolean `" ++ (if b then "true" else "false") ++ "`"
  | integer n => "integer `" ++ toString n ++ "`"
  | floating x => "floating point `" ++ Text.floatText x ++ "`"
  | string text => "string " ++ Text.quoted text
  | sequence => "sequence"
  | map => "map"

/-- How a value differs from what was expected. -/
inductive Mismatch
  | invalidType (found : Found) (expected : String)
  | invalidValue (found : Found) (expected : String)
  | invalidLength (length : Nat) (expected : String)
  | missingField (name : String)
  | duplicateField (name : String)

def Mismatch.message : Mismatch → String
  | invalidType found expected => "invalid type: " ++ found.text ++ ", expected " ++ expected
  | invalidValue found expected => "invalid value: " ++ found.text ++ ", expected " ++ expected
  | invalidLength length expected =>
    "invalid length " ++ toString length ++ ", expected " ++ expected
  | missingField name => "missing field `" ++ name ++ "`"
  | duplicateField name => "duplicate field `" ++ name ++ "`"

/-- The first thing wrong with a text. -/
inductive Fault
  | malformed
  | unfinished
  | mismatch (m : Mismatch)

/-- Takes a value off the front of a text. -/
abbrev Reader (α : Type) := List Char → Except Fault (α × List Char)

def isBlank (c : Char) : Bool := c == ' ' || c == '\n' || c == '\t' || c == '\r'

def skipBlanks (cs : List Char) : List Char := cs.dropWhile isBlank

/-- Takes the rest of a word. -/
def word : (letters : List Char) → List Char → Except Fault (List Char)
  | [], cs => .ok cs
  | _ :: _, [] => .error .unfinished
  | l :: ls, c :: cs => if c = l then word ls cs else .error .malformed

/-- The value of a hexadecimal digit. -/
def hexDigit? (c : Char) : Option Nat :=
  if '0' ≤ c ∧ c ≤ '9' then some (c.toNat - '0'.toNat)
  else if 'a' ≤ c ∧ c ≤ 'f' then some (c.toNat - 'a'.toNat + 10)
  else if 'A' ≤ c ∧ c ≤ 'F' then some (c.toNat - 'A'.toNat + 10)
  else none

/-- The number of bytes of characters in UTF-8. -/
def byteCount (cs : List Char) : Nat := cs.foldr (fun c n => c.utf8Size + n) 0

/-- Takes four hexadecimal digits. A text that has fewer than four bytes left is unfinished. -/
def hexUnit : Reader Nat := fun cs =>
  if byteCount (cs.take 4) < 4 then .error .unfinished
  else
    match (cs.take 4).mapM hexDigit? with
    | some [a, b, c, d] => .ok (((a * 16 + b) * 16 + c) * 16 + d, cs.drop 4)
    | _ => .error .malformed

/-- Takes the character of a `\u` escape, whose second half may be another such escape. -/
def unicodeEscape : Reader Char := fun cs => do
  let (high, cs) ← hexUnit cs
  if 0xdc00 ≤ high ∧ high ≤ 0xdfff then .error .malformed
  else if high < 0xd800 ∨ 0xdbff < high then .ok (Char.ofNat high, cs)
  else
    match cs with
    | [] => .error .unfinished
    | ['\\'] => .error .unfinished
    | '\\' :: 'u' :: cs => do
      let (low, cs) ← hexUnit cs
      if low < 0xdc00 ∨ 0xdfff < low then .error .malformed
      else .ok (Char.ofNat (0x10000 + (high - 0xd800) * 0x400 + (low - 0xdc00)), cs)
    | _ => .error .malformed

/-- The characters with a short escape. -/
def shortEscape? : Char → Option Char
  | '"' => some '"'
  | '\\' => some '\\'
  | '/' => some '/'
  | 'b' => some '\x08'
  | 'f' => some '\x0c'
  | 'n' => some '\n'
  | 'r' => some '\r'
  | 't' => some '\t'
  | _ => none

/-- Takes the character of an escape, after its backslash. -/
def escape : Reader Char
  | [] => .error .unfinished
  | 'u' :: cs => unicodeEscape cs
  | c :: cs =>
    match shortEscape? c with
    | some d => .ok (d, cs)
    | none => .error .malformed

/-- Takes the characters of a string up to its closing quote, at most `count` of them. -/
def stringChars : (count : Nat) → Reader (List Char)
  | 0, _ => .error .unfinished
  | _ + 1, [] => .error .unfinished
  | _ + 1, '"' :: cs => .ok ([], cs)
  | count + 1, '\\' :: cs => do
    let (c, cs) ← escape cs
    let (text, cs) ← stringChars count cs
    return (c :: text, cs)
  | count + 1, c :: cs =>
    if c.toNat < 0x20 then .error .malformed
    else do
      let (text, cs) ← stringChars count cs
      return (c :: text, cs)

/-- Takes a string, after its opening quote. -/
def stringTail : Reader String := fun cs => do
  let (text, cs) ← stringChars (cs.length + 1) cs
  return (String.ofList text, cs)

/-- The number `x / 10 ^ e`, in steps that a floating-point number can take. -/
def scaledDown (x : Float) (e : Nat) : Float :=
  if e ≤ 308 then x / Float.ofScientific 1 false e
  else if x == 0 then x
  else scaledDown (x / Float.ofScientific 1 false 308) (e - 308)
termination_by e

/-- The floating-point number of a significand of 64 bits and a power of ten. -/
def floating (negative : Bool) (significand : Nat) (power : Int) : Except Fault Found :=
  let x := (UInt64.ofNat significand).toFloat
  let signed (y : Float) : Found := .floating (if negative then -y else y)
  if power < 0 then .ok (signed (scaledDown x (-power).toNat))
  else if x == 0 then .ok (signed x)
  else if 308 < power then .error .malformed
  else
    let y := x * Float.ofScientific 1 false power.toNat
    if y.isInf then .error .malformed else .ok (signed y)

/-- Adds digits to a significand as long as it keeps to 64 bits; counts those added. -/
def significandOf (significand added : Nat) : List Char → Nat × Nat
  | [] => (significand, added)
  | c :: cs =>
    let next := significand * 10 + (Text.digit? c).getD 0
    if next < 2 ^ 64 then significandOf next (added + 1) cs else (significand, added)

def isDigit (c : Char) : Bool := (Text.digit? c).isSome

/-- Takes an exponent, after its mark, and with it the number. -/
def exponentTail (negative : Bool) (significand : Nat) (power : Int) : Reader Found := fun cs =>
  let (down, cs) := match cs with
    | '+' :: cs => (false, cs)
    | '-' :: cs => (true, cs)
    | cs => (false, cs)
  match cs with
  | [] => .error .unfinished
  | c :: _ =>
    if ¬ isDigit c then .error .malformed
    else do
      let e : Nat := (Text.ofDigits? (cs.takeWhile isDigit)).getD 0
      let x ← floating negative significand (if down then power - e else power + e)
      return (x, cs.dropWhile isDigit)

/-- Takes decimal places, after the point, and with them the number. -/
def placesTail (negative : Bool) (significand : Nat) (power : Int) : Reader Found := fun cs =>
  let places := cs.takeWhile isDigit
  let rest := cs.dropWhile isDigit
  if places.isEmpty then .error (if rest.isEmpty then .unfinished else .malformed)
  else
    let (significand, added) := significandOf significand 0 places
    match rest with
    | 'e' :: cs | 'E' :: cs => exponentTail negative significand (power - added) cs
    | rest => do
      let x ← floating negative significand (power - added)
      return (x, rest)

/-- Takes a number, after its sign. -/
def numberTail (negative : Bool) : Reader Found := fun cs =>
  let whole := cs.takeWhile isDigit
  let rest := cs.dropWhile isDigit
  match whole with
  | [] => .error (if rest.isEmpty then .unfinished else .malformed)
  | '0' :: _ :: _ => .error .malformed
  | _ =>
    let (significand, added) := significandOf 0 0 whole
    let power : Int := (whole.length - added : Nat)
    match rest with
    | '.' :: cs => placesTail negative significand power cs
    | 'e' :: cs | 'E' :: cs => exponentTail negative significand power cs
    | rest =>
      if power = 0 ∧ ¬ negative then .ok (.integer significand, rest)
      else if power = 0 ∧ 0 < significand ∧ significand ≤ 2 ^ 63 then
        .ok (.integer (-(significand : Int)), rest)
      else do
        let x ← floating negative significand power
        return (x, rest)

/-- What stands at the front of a text. Of an array or object only its first character is looked
at. -/
def found : List Char → Except Fault Found
  | 'n' :: cs => return (← word ['u', 'l', 'l'] cs, Found.null).2
  | 't' :: cs => return (← word ['r', 'u', 'e'] cs, Found.boolean true).2
  | 'f' :: cs => return (← word ['a', 'l', 's', 'e'] cs, Found.boolean false).2
  | '-' :: cs => return (← numberTail true cs).1
  | '"' :: cs => return .string (← stringTail cs).1
  | '[' :: _ => return .sequence
  | '\x7b' :: _ => return .map
  | c :: cs => if isDigit c then return (← numberTail false (c :: cs)).1 else .error .malformed
  | [] => .error .unfinished

/-- Reports what stands at the front of a text where something else was expected. -/
def unexpected {α : Type} (expected : String) (cs : List Char) : Except Fault α := do
  .error (.mismatch (.invalidType (← found cs) expected))

end DatedRules.Json
