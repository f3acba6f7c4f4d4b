import DatedRules.Text.Digits

/-!
# The shortest decimal of a binary number

`Shortest.ofBinary m q` are the fewest digits, with a power of ten, that stand for a number nearer
to `m * 2 ^ q` than to the binary numbers beside it; of several such, the nearest. `floatText`
writes them, positionally for numbers from `10 ^ -5` up to `10 ^ 16` and else with a signed
exponent, as `1e+16`.
-/

namespace DatedRules.Text

/-- Digits, without trailing zeros, times a power of ten. -/
structure Shortest where
  digits : Nat
  power : Int
deriving DecidableEq

namespace Shortest

/-- Compares `a * 10 ^ k` with the fraction `n / d`. -/
def compareScaled (a : Nat) (k : Int) (n d : Nat) : Ordering :=
  compare (a * 10 ^ k.toNat * d) (n * 10 ^ (-k).toNat)

/-- The exponent of the leading digit of `n / d`, for a number below `10 ^ 400` and not below
`10 ^ -400`. -/
def leading (n d : Nat) : Int :=
  if d ≤ n then ((Text.digits (n / d)).length : Int) - 1
  else -(((List.range 400).find? fun j => d ≤ n * 10 ^ j).getD 400 : Nat)

/-- Takes trailing zeros off, at most so many. -/
def stripped : (count : Nat) → Shortest → Shortest
  | 0, s => s
  | count + 1, s => if s.digits % 10 = 0 then stripped count ⟨s.digits / 10, s.power + 1⟩ else s

/-- The shortest decimal of `m * 2 ^ q`, for the mantissa of a number with 53 binary digits; `low`
tells whether the number below is only half as far away as the one above. -/
def ofBinary (m : Nat) (q : Int) (low : Bool) : Shortest :=
  let d := 4 * 2 ^ (-q).toNat
  let unit := 2 ^ q.toNat
  let n := 4 * m * unit
  let least := n - (if low then 1 else 2) * unit
  let most := n + 2 * unit
  let closed := m % 2 == 0
  let top := leading n d
  let fits (a : Nat) (k : Int) : Bool :=
    (match compareScaled a k least d with | .lt => false | .eq => closed | .gt => true) &&
      (match compareScaled a k most d with | .lt => true | .eq => closed | .gt => false)
  let onGrid (places : Nat) : Option Shortest :=
    let k := top - places
    let a := n * 10 ^ (-k).toNat / (d * 10 ^ k.toNat)
    let b := a + 1
    match fits a k, fits b k with
    | true, true =>
      match compareScaled (a + b) k (2 * n) d with
      | .gt => some ⟨a, k⟩
      | .lt => some ⟨b, k⟩
      | .eq => some ⟨if a % 2 = 0 then a else b, k⟩
    | true, false => some ⟨a, k⟩
    | false, true => some ⟨b, k⟩
    | false, false => none
  stripped 20 (((List.range 17).findSome? onGrid).getD ⟨m, 0⟩)

/-- Digits and power of ten as text, with a point or an exponent in any case. -/
def toChars (s : Shortest) : List Char :=
  let ds := Text.digits s.digits
  let place : Int := ds.length + s.power
  if 0 ≤ s.power ∧ place ≤ 16 then ds ++ List.replicate s.power.toNat '0' ++ ['.', '0']
  else if 0 < place ∧ place ≤ 16 then ds.take place.toNat ++ '.' :: ds.drop place.toNat
  else if -5 < place ∧ place ≤ 0 then '0' :: '.' :: List.replicate (-place).toNat '0' ++ ds
  else
    let exponent := (if 1 ≤ place then ['+'] else ['-']) ++ Text.digits (place - 1).natAbs
    match ds with
    | [] => []
    | [c] => c :: 'e' :: exponent
    | c :: cs => c :: '.' :: cs ++ 'e' :: exponent

end Shortest

/-- The shortest text that reads back as a finite number. -/
def floatText (x : Float) : String :=
  let bits : Nat := x.toBits.toNat
  let fraction : Nat := bits % 2 ^ 52
  let exponent : Nat := bits / 2 ^ 52 % 2 ^ 11
  let chars :=
    if exponent = 0 ∧ fraction = 0 then ['0', '.', '0']
    else if exponent = 0 then (Shortest.ofBinary fraction (-1074) false).toChars
    else (Shortest.ofBinary (2 ^ 52 + fraction) ((exponent : Int) - 1075)
      (fraction == 0 && exponent != 1)).toChars
  String.ofList ((if bits / 2 ^ 63 = 1 then ['-'] else []) ++ chars)

end DatedRules.Text
