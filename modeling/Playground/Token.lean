/-
# Tokens

A token is a whole construct with its place: an assignment, which takes up the rest of its line,
or a print call.  A line yields at most one assignment and then its calls from left to right, and
the tokens of a text end with a mark on the line behind the last one.
-/
import Playground.Line.AssignmentLine
import Playground.Line.CallSplit
import Playground.Span
import Playground.Text.Lines

namespace Playground

/-- The construct that a token stands for. -/
inductive Construct
  /-- An assignment of a value, as it is written behind the operator, to a name. -/
  | assignment (name value : Text)
  /-- A print call with its argument as it is written. -/
  | printCall (argument : Text)
  /-- The end of the text. -/
  | endOfText
  deriving DecidableEq, Repr

/-- How a construct is spoken of. -/
def Construct.toText : Construct → Text
  | assignment name _ => "assignment to '".toList ++ name ++ ['\'']
  | printCall argument => "print call '".toList ++ argument ++ ['\'']
  | endOfText => "end of file".toList

/-- A construct of a program with its place. -/
structure Token where
  /-- The construct. -/
  construct : Construct
  /-- The place where it stands. -/
  span : Span
  deriving DecidableEq, Repr

namespace Token

/-- The assignment of a line: it stands from its name to the end of the line. -/
def ofAssignment? (d : Dialect) (number : UInt32) (line : Text) : Option Token :=
  (AssignmentLine.read? d line).map fun a =>
    ⟨.assignment a.name a.value,
      Span.ofColumns number (Span.columnAfter a.indent.length) (UInt32.ofNat line.length)⟩

/-- The calls of a line from `before` characters on: each stands from its opener to its closing
parenthesis. -/
def ofCalls (d : Dialect) (number : UInt32) (before : Nat) : List Call → List Token
  | [] => []
  | call :: calls =>
    let start := before + call.gap.length
    let close := start + d.opener.length + call.argument.length
    ⟨.printCall call.argument,
        Span.ofColumns number (Span.columnAfter start) (Span.columnAfter close)⟩
      :: ofCalls d number (close + 1) calls

/-- The tokens of a line. -/
def ofLine (d : Dialect) (number : UInt32) (line : Text) : List Token :=
  (ofAssignment? d number line).toList ++ ofCalls d number 0 (CallSplit.ofLine d line).calls

/-- The mark behind the last of `count` lines. -/
def atEnd (count : Nat) : Token := ⟨.endOfText, Span.ofPlace (UInt32.ofNat (count + 1)) 1⟩

/-- The tokens of a text. -/
def ofText (d : Dialect) (s : Text) : List Token :=
  (s.countedLines.flatMap fun numbered => ofLine d numbered.1 numbered.2) ++ [atEnd s.lines.length]

end Token

end Playground
