/-
# Quotes around text

A value that begins with a quote is stripped of its first and last character, whatever the
last one is; a printed operand loses its ends only if both are quotes.
-/
import Playground.Text.Basic

namespace Playground

namespace Text

/-- Whether `c` is a single or a double quote. -/
def isQuote (c : Char) : Bool := c = '"' || c = '\''

/-- `s` without its first and its last character; a lone character leaves nothing. -/
def dropEnds (s : Text) : Text := s.tail.dropLast

/-- `s` without one pair of quotes around it.  The two need not be the same, and text that is
not between quotes stays as it is. -/
def unquoted (s : Text) : Text :=
  match s.head?, s.tail.getLast? with
  | some first, some last => if isQuote first && isQuote last then s.dropEnds else s
  | _, _ => s

end Text

end Playground
