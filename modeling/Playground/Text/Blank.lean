/-
# Blank text and trimming

A character is a space if it has the Unicode property `White_Space`, which 25 code points
have.  Text is blank if it consists of spaces.
-/
import Playground.Text.Basic

namespace Playground

namespace Text

/-- The ranges of code points with the Unicode property `White_Space`. -/
def spaceRanges : List (Nat × Nat) :=
  [(0x09, 0x0D), (0x20, 0x20), (0x85, 0x85), (0xA0, 0xA0), (0x1680, 0x1680),
    (0x2000, 0x200A), (0x2028, 0x2029), (0x202F, 0x202F), (0x205F, 0x205F), (0x3000, 0x3000)]

/-- Whether `c` has the Unicode property `White_Space`. -/
def isSpace (c : Char) : Bool :=
  spaceRanges.any fun range => range.1 ≤ c.toNat && c.toNat ≤ range.2

/-- Whether `s` holds spaces only. -/
def isBlank (s : Text) : Bool := s.all isSpace

/-- `s` without the spaces in front. -/
def trimStart (s : Text) : Text := s.dropWhile isSpace

/-- `s` without the spaces at its end. -/
def trimEnd (s : Text) : Text := (s.reverse.dropWhile isSpace).reverse

/-- `s` without the spaces at either end. -/
def trim (s : Text) : Text := s.trimStart.trimEnd

end Text

end Playground
