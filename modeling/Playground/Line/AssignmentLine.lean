/-
# Assignments on a line

A line is an assignment if it consists of an identifier, the operator of the dialect and a
nonempty value, where spaces may stand before the operator and, if the dialect indents, before
the identifier.  Reading takes the line apart without loss.

* `AssignmentLine.toText_of_read?` : the parts of a line, put together, are the line.
-/
import Playground.Dialect
import Playground.Text.Blank
import Playground.Text.Search

namespace Playground

/-- The parts of an assignment, the operator apart. -/
structure AssignmentLine where
  /-- The spaces before the identifier. -/
  indent : Text
  /-- The identifier. -/
  name : Text
  /-- The spaces before the operator. -/
  gap : Text
  /-- What follows the operator. -/
  value : Text
  deriving DecidableEq, Repr

namespace AssignmentLine

/-- Whether `c` may stand in an identifier. -/
def isNameChar (c : Char) : Bool := c.isAlphanum || c = '_'

/-- Whether `s` starts as an identifier does, with a letter or an underscore. -/
def startsName (s : Text) : Bool := s.head?.any fun c => c.isAlpha || c = '_'

/-- Reads the assignment behind its indent. -/
def readName? (d : Dialect) (indent s : Text) : Option AssignmentLine :=
  let name := s.takeWhile isNameChar
  let rest := s.dropWhile isNameChar
  let gap := rest.takeWhile Text.isSpace
  if startsName s then
    match Text.after? d.operator (rest.dropWhile Text.isSpace) with
    | some value => if value = [] then none else some ⟨indent, name, gap, value⟩
    | none => none
  else none

/-- Reads a line as an assignment. -/
def read? (d : Dialect) (line : Text) : Option AssignmentLine :=
  if d.indents then readName? d (line.takeWhile Text.isSpace) (line.dropWhile Text.isSpace)
  else readName? d [] line

/-- Whether a line is an assignment. -/
def fits (d : Dialect) (line : Text) : Bool := (read? d line).isSome

/-- The parts put together. -/
def toText (d : Dialect) (a : AssignmentLine) : Text :=
  a.indent ++ a.name ++ a.gap ++ d.operator ++ a.value

theorem toText_of_readName? {d : Dialect} {indent s : Text} {a : AssignmentLine}
    (h : readName? d indent s = some a) : a.toText d = indent ++ s := by
  unfold readName? at h
  dsimp only at h
  split at h
  · split at h
    · next value hvalue =>
      split at h
      · exact absurd h (by simp)
      · obtain rfl := Option.some.inj h
        have hrest := Text.after?_eq_some_iff.1 hvalue
        simp only [toText, List.append_assoc]
        rw [← hrest, List.takeWhile_append_dropWhile, List.takeWhile_append_dropWhile]
    · exact absurd h (by simp)
  · exact absurd h (by simp)

/-- The parts of a line, put together, are the line. -/
theorem toText_of_read? {d : Dialect} {line : Text} {a : AssignmentLine}
    (h : read? d line = some a) : a.toText d = line := by
  unfold read? at h
  split at h
  · rw [toText_of_readName? h, List.takeWhile_append_dropWhile]
  · simpa using toText_of_readName? h

end AssignmentLine

end Playground
