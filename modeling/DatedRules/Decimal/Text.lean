import DatedRules.Decimal.Arithmetic
import DatedRules.Text.Digits

/-!
# The text of a decimal

Written are the sign, the digits and exactly `scale` digits after the point.

Read is an optional sign and digits with at most one point among them; after the first digit there
may be underscores anywhere. Decimal places that do not fit are rounded off, half away from zero, by
the first of them. An underscore right after the last place that fits is passed over where the
digits before that place make a large number (`isWide`), and else stands for a zero there.

A text that is not of this form may be one with an exponent: `1.5e-2`, `1.2E10`.
-/

namespace DatedRules

namespace Decimal

open Text (digit? digits ofDigits?)

/-- The characters of a decimal. -/
def chars (a : Decimal) : List Char :=
  let ds := Text.padded (a.scale + 1) a.mantissa
  let whole := ds.take (ds.length - a.scale)
  let places := ds.drop (ds.length - a.scale)
  (if a.negative then ['-'] else []) ++ whole ++ (if a.scale = 0 then [] else '.' :: places)

def toText (a : Decimal) : String := String.ofList a.chars

/-- Rounds the digits read so far by the first one that does not fit; what follows it must be digits
and underscores. -/
def roundOff? (m s : Nat) (c : Char) (cs : List Char) : Option (Nat × Nat) :=
  if ¬ cs.all (fun c => (digit? c).isSome || c == '_') then none
  else
    match if c = '_' then some 0 else digit? c with
    | none => none
    | some d =>
      if d < 5 then some (m, s)
      else if m + 1 < 2 ^ 96 then some (m + 1, s)
      else if s = 0 then none
      else some ((m + 5) / 10, s - 1)

/-- Whether the digits before the last one of a mantissa make a large number: not below a bound that
leaves a reader of 64-bit numbers room for one more digit. -/
def isWide (m : Nat) : Bool := (2 ^ 64 - 1) / 10 - 255 ≤ m / 10

/-- Mantissa and scale of digits with a point among them. `seen` tells whether a digit came before
and `point` whether the point did. -/
def readDigits (seen point : Bool) (m s : Nat) : List Char → Option (Nat × Nat)
  | [] => if seen then some (m, s) else none
  | c :: cs =>
    if point && s == 28 then
      if c == '_' && isWide m then readDigits true true m s cs else roundOff? m s c cs
    else
      match digit? c with
      | some d =>
        if m * 10 + d < 2 ^ 96 then
          readDigits true point (m * 10 + d) (if point then s + 1 else s) cs
        else if point then roundOff? m s c cs
        else none
      | none =>
        if c = '.' ∧ ¬ point then readDigits seen true m s cs
        else if c = '_' ∧ seen then readDigits seen point m s cs
        else none

/-- Splits off a sign: whether it is `-`, and what follows. -/
def readSign : List Char → Bool × List Char
  | '-' :: cs => (true, cs)
  | '+' :: cs => (false, cs)
  | cs => (false, cs)

/-- Reads a decimal without exponent. Zero is never negative. -/
def ofPlain? (cs : List Char) : Option Decimal :=
  let (negative, ds) := readSign cs
  match readDigits false false 0 0 ds with
  | none => none
  | some (m, s) => ofParts? (negative && m != 0) m s

/-- Drops all trailing zeros after the point. -/
def normalize (a : Decimal) : Decimal :=
  let rec go : Nat → Nat → Nat × Nat
    | m, 0 => (m, 0)
    | m, s + 1 => if m % 10 = 0 then go (m / 10) s else (m, s + 1)
  if a.isZero then zero
  else
    let (m, s) := go a.mantissa a.scale
    (ofParts? a.negative m s).getD a

/-- A power of ten up to the 19th. -/
def tenTo (k : Nat) : Decimal := (ofParts? false (10 ^ k) 0).getD one

/-- Moves the point of a decimal `e` places to the right: into its decimal places as far as they
go, else by multiplication, after which no trailing zeros are kept after the point. -/
def shiftRight? (a : Decimal) (e : Nat) : Option Decimal :=
  if e ≤ a.scale then ofParts? a.negative a.mantissa (a.scale - e)
  else if 28 < e then none
  else
    let shifted := if e < 19 then a.mul? (tenTo e)
      else if e = 19 then a.mul? (tenTo 19)
      else (a.mul? (tenTo 19)).bind (·.mul? (tenTo (e - 19)))
    shifted.map normalize

/-- Moves the point of a decimal `e` places to the left, at most 28. Places past the 28th are
rounded off, half away from zero; the sign stays even if nothing else is left. -/
def shiftLeft? (a : Decimal) (e : Nat) : Option Decimal :=
  if 28 < e then none
  else if a.scale + e ≤ 28 then ofParts? a.negative a.mantissa (a.scale + e)
  else
    let d := 10 ^ (a.scale + e - 28)
    ofParts? a.negative ((2 * a.mantissa + d) / (2 * d)) 28

/-- An exponent: digits, which a `+` may come before. -/
def readExponent? : List Char → Option Nat
  | '+' :: cs => ofDigits? cs
  | cs => ofDigits? cs

/-- Reads a decimal with an exponent after `e` or `E`. -/
def ofScientific? (cs : List Char) : Option Decimal :=
  let mark := fun c => c == 'e' || c == 'E'
  match cs.dropWhile (fun c => !mark c) with
  | [] => none
  | _ :: tail =>
    (ofPlain? (cs.takeWhile (fun c => !mark c))).bind fun a =>
      match tail with
      | '-' :: ds => (readExponent? ds).bind a.shiftLeft?
      | ds => (readExponent? ds).bind a.shiftRight?

/-- Reads a decimal, with or without exponent. -/
def ofText? (text : String) : Option Decimal :=
  (ofPlain? text.toList).orElse fun _ => ofScientific? text.toList

end Decimal

end DatedRules
