/-
# Lines

A newline ends a line, and a carriage return just before a newline belongs to the ending.
Text that ends in a newline has no empty line behind it, and a carriage return anywhere else
is a character of its line.  Lines are numbered from 1 by 32-bit words.
-/
import Playground.Text.Blank

namespace Playground

namespace Text

/-- Puts `c` in front of the first line; text with no line yet becomes the line of `c`. -/
def consFirst (c : Char) : List Text → List Text
  | [] => [[c]]
  | line :: rest => (c :: line) :: rest

/-- The lines of `s` without their endings. -/
def lines : Text → List Text
  | [] => []
  | c :: s =>
    if c = '\n' then [] :: lines s
    else if c = '\r' ∧ s.head? = some '\n' then lines s
    else consFirst c (lines s)

/-- The lines of `s` with their numbers. -/
def countedLines (s : Text) : List (UInt32 × Text) :=
  (s.lines.zipIdx 1).map fun numbered => (UInt32.ofNat numbered.2, numbered.1)

/-- Lines with a newline behind each of them. -/
def unlines (lines : List Text) : Text := lines.flatMap (· ++ ['\n'])

theorem utf8Size_unlines_cons (line : Text) (lines : List Text) :
    (unlines (line :: lines)).utf8Size = line.utf8Size + 1 + (unlines lines).utf8Size := by
  show utf8Size ((line ++ ['\n']) ++ unlines lines) = _
  rw [utf8Size_append, utf8Size_append]
  rfl

/-- Whether every line after the first `n` is blank. -/
def blankFrom (lines : List Text) (n : Nat) : Bool := (lines.drop n).all isBlank

end Text

end Playground
