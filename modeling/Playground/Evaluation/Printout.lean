/-
# Printouts

A printout is what one print does: it writes a line or none.  The size of a line is known before
the line is formed, which for a large count it need never be, and cannot be beyond the largest text.
-/
import Playground.Evaluation.Bindings
import Playground.Evaluation.Count
import Playground.Text.Lines

namespace Playground

/-- What a print does. -/
inductive Printout
  /-- Writes the value of the variable `name`. -/
  | bound (name : Text) (v : Value)
  /-- Writes a text as it stands. -/
  | literal (s : Text)
  /-- Writes `count` copies of a text on one line. -/
  | copies (s : Text) (count : Nat)
  /-- Writes nothing, since a repetition was not recognised. -/
  | nothing (expression : Text)
  deriving DecidableEq, Repr

namespace Printout

/-- The line that is written, if it can be formed. -/
def line? : Printout → Except Unformed (Option Text)
  | bound _ v => .ok (some v.toText)
  | literal s => .ok (some s)
  | copies s count => (s.repeated count).map some
  | nothing _ => .ok none

/-- The size of the line that is written. -/
def size? : Printout → Option Nat
  | bound _ v => some v.toText.utf8Size
  | literal s => some s.utf8Size
  | copies s count => some (count * s.utf8Size)
  | nothing _ => none

/-- The lines that printouts write, in their order. -/
def lines : List Printout → Except Unformed (List Text)
  | [] => .ok []
  | p :: ps => do
    let line ← p.line?
    let rest ← lines ps
    return line.toList ++ rest

/-- Every line with a newline behind it, or `none` if no line is written. -/
def output? (ps : List Printout) : Except Unformed (Option Text) := do
  let lines ← lines ps
  if lines = [] then return none
  let output ← Text.formed (Text.unlines lines)
  return some output

end Printout

/-- A printout with the place of the print that made it. -/
structure Printed where
  /-- The place of the print. -/
  span : Span
  /-- What the print does. -/
  printout : Printout
  deriving DecidableEq, Repr

/-- What a program leaves behind. -/
structure Transcript where
  /-- The variables at the end of all assignments. -/
  bindings : Bindings
  /-- What the prints did, in their order. -/
  printed : List Printed
  deriving DecidableEq

namespace Transcript

/-- What the prints did, without their places. -/
def printouts (t : Transcript) : List Printout := t.printed.map Printed.printout

/-- The lines that were written, in their order. -/
def lines (t : Transcript) : Except Unformed (List Text) := Printout.lines t.printouts

/-- Every line with a newline behind it, or `none` if no line was written. -/
def output? (t : Transcript) : Except Unformed (Option Text) := Printout.output? t.printouts

end Transcript

end Playground
