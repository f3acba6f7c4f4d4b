/-!
# Terminal control sequences

A text for a terminal may hold control sequences, which start at an escape character and do not
show, and other control characters. `plain` takes both off, for a reader that is no terminal; of the
controls it leaves only tab, line feed, form feed and carriage return.

`highlighted` sets a text off from what is around it. The sequence that ends the highlight also ends
one that the text has left open, so that no text in a highlight hides anything after it.
-/

namespace DatedRules.Text.Terminal

/-- A text in a colour of its own. -/
def highlighted (text : String) : String := "\x1b[33m" ++ text ++ "\x1b[0m"

/-- The parts of a text for a terminal. -/
inductive State
  /-- Characters that show. -/
  | shown
  /-- After an escape character. -/
  | escape
  /-- A short sequence, after its first character. -/
  | short
  /-- A sequence with parameters. -/
  | parameters
  /-- A command to the operating system, which a bell may end. -/
  | command
  /-- Another string for the terminal. -/
  | string
deriving DecidableEq

/-- Blanks among the controls. -/
def isBlankControl (c : Char) : Bool := c == '\t' || c == '\n' || c == '\x0c' || c == '\r'

def isControl (c : Char) : Bool := c.toNat < 0x20 || c.toNat == 0x7f

/-- Whether a character between sequences shows. -/
def isShown (c : Char) : Bool := isBlankControl c || !isControl c

/-- Whether a character is in a range of code points. -/
def isIn (c : Char) (least most : Nat) : Bool := least ≤ c.toNat && c.toNat ≤ most

/-- Where a character leads. -/
def State.next (s : State) (c : Char) : State :=
  if c = '\x1b' then escape
  else if c = '\x18' ∨ c = '\x1a' then shown
  else
    match s with
    | shown => shown
    | escape =>
      if isIn c 0x20 0x2f then short
      else if c = '[' then parameters
      else if c = ']' then command
      else if c = 'P' ∨ c = 'X' ∨ c = '^' ∨ c = '_' then string
      else if isIn c 0x30 0x7e then shown
      else escape
    | short => if isIn c 0x30 0x7e then shown else short
    | parameters => if isIn c 0x40 0x7e then shown else parameters
    | command => if c = '\x07' then shown else command
    | string => string

/-- Whether a character shows: between sequences, and blank controls also inside of one that is not
a string. -/
def State.shows (s : State) (c : Char) : Bool :=
  match s with
  | shown => isShown c
  | escape | short | parameters => isBlankControl c
  | command | string => false

/-- What shows of the characters from a state on. A blank control inside a sequence interrupts it:
what follows shows up to the next control, where the sequence goes on. -/
def plainFrom (interrupted : Bool) (s : State) : List Char → List Char
  | [] => []
  | c :: cs =>
    if interrupted && isShown c then
      c :: plainFrom true (if c.toNat < 0x80 then s else .shown) cs
    else if s.shows c then c :: plainFrom true s cs
    else plainFrom false (s.next c) cs

/-- A text without control sequences and control characters, blanks excepted. -/
def plain (text : String) : String := String.ofList (plainFrom false .shown text.toList)

end DatedRules.Text.Terminal
