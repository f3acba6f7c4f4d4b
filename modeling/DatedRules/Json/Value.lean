/-!
# JSON values

The JSON that reports are made of: null, strings, arrays, and objects whose fields stand in the
order given. It is written on one line (`compact`) or with two spaces for each level (`pretty`).
-/

namespace DatedRules

/-- A JSON value without numbers and truth values. -/
inductive Json
  | null
  | string (text : String)
  | array (items : List Json)
  | object (members : List (String × Json))

namespace Json

/-- How a character is written in a string. -/
def escaped (c : Char) : List Char :=
  match c with
  | '"' => ['\\', '"']
  | '\\' => ['\\', '\\']
  | '\n' => ['\\', 'n']
  | '\r' => ['\\', 'r']
  | '\t' => ['\\', 't']
  | '\x08' => ['\\', 'b']
  | '\x0c' => ['\\', 'f']
  | c =>
    if c.toNat < 0x20 then
      ['\\', 'u', '0', '0', Nat.digitChar (c.toNat / 16), Nat.digitChar (c.toNat % 16)]
    else [c]

/-- A string with its quotes. -/
def stringText (text : String) : String :=
  String.ofList ('"' :: text.toList.flatMap escaped ++ ['"'])

mutual

/-- A value on one line. -/
def compact : Json → String
  | null => "null"
  | string text => stringText text
  | array items => "[" ++ compactItems true items ++ "]"
  | object members => "\x7b" ++ compactMembers true members ++ "\x7d"

def compactItems (first : Bool) : List Json → String
  | [] => ""
  | j :: js => (if first then "" else ",") ++ compact j ++ compactItems false js

def compactMembers (first : Bool) : List (String × Json) → String
  | [] => ""
  | (name, j) :: ms =>
    (if first then "" else ",") ++ stringText name ++ ":" ++ compact j ++ compactMembers false ms

end

/-- A line end and the indentation of a level. -/
def newline (level : Nat) : String :=
  String.ofList ('\n' :: List.replicate (2 * level) ' ')

mutual

/-- A value over several lines, in an environment of a given level. -/
def prettyFrom (level : Nat) : Json → String
  | null => "null"
  | string text => stringText text
  | array [] => "[]"
  | array (j :: js) =>
    "[" ++ newline (level + 1) ++ prettyFrom (level + 1) j ++ prettyItems (level + 1) js ++
      newline level ++ "]"
  | object [] => "\x7b\x7d"
  | object ((name, j) :: ms) =>
    "\x7b" ++ newline (level + 1) ++ stringText name ++ ": " ++ prettyFrom (level + 1) j ++
      prettyMembers (level + 1) ms ++ newline level ++ "\x7d"

def prettyItems (level : Nat) : List Json → String
  | [] => ""
  | j :: js => "," ++ newline level ++ prettyFrom level j ++ prettyItems level js

def prettyMembers (level : Nat) : List (String × Json) → String
  | [] => ""
  | (name, j) :: ms =>
    "," ++ newline level ++ stringText name ++ ": " ++ prettyFrom level j ++ prettyMembers level ms

end

/-- A value over several lines. -/
def pretty (j : Json) : String := prettyFrom 0 j

end Json

end DatedRules
