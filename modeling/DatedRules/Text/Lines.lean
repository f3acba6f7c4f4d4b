/-!
# Lines

The lines of a text end at line feeds; a carriage return right before a line feed belongs to the
line end, too. What follows the last line feed is a line only if it is not empty.
-/

namespace DatedRules.Text

/-- A line whose characters were read last to first, less a carriage return at its end. -/
def closedLine : List Char → List Char
  | '\r' :: cs => cs.reverse
  | cs => cs.reverse

/-- The lines of characters; `line` holds those of the current one, last to first. -/
def linesFrom (line : List Char) : List Char → List (List Char)
  | [] => if line.isEmpty then [] else [line.reverse]
  | c :: cs => if c = '\n' then closedLine line :: linesFrom [] cs else linesFrom (c :: line) cs

/-- The lines of a text. -/
def lines (text : String) : List String := (linesFrom [] text.toList).map String.ofList

end DatedRules.Text
