/-
# Programs

A program is a list of statements, and a statement an assignment or a print.  What a program
cannot use it still holds: a value that is neither a text nor a number, and a repetition that was
not recognised.
-/
import Playground.Dialect
import Playground.Program.Repetition
import Playground.Span
import Playground.Value

namespace Playground

/-- What an assignment assigns. -/
inductive Assigned
  /-- A value that a variable can hold. -/
  | value (v : Value)
  /-- Text that is neither quoted nor a number. -/
  | unsupported (s : Text)
  deriving DecidableEq, Repr

/-- The value that a variable takes, if it takes one. -/
def Assigned.value? : Assigned → Option Value
  | value v => some v
  | unsupported _ => none

/-- An assignment. -/
structure Assignment where
  /-- The variable. -/
  name : Text
  /-- The place of the variable. -/
  nameSpan : Span
  /-- What is assigned. -/
  assigned : Assigned
  /-- The place of the assignment. -/
  span : Span
  deriving DecidableEq, Repr

/-- Part of an argument: it names a variable, or else it stands for itself. -/
structure Operand where
  /-- The text, by which a variable may be named. -/
  text : Text
  /-- The text without quotes around it. -/
  literal : Text
  deriving DecidableEq, Repr

/-- The argument of a print. -/
inductive Argument
  /-- A single operand. -/
  | operand (o : Operand)
  /-- A text operand and a count operand, with a star between them. -/
  | product (text count : Operand)
  /-- A call that repeats a text. -/
  | repetition (call : Repetition)
  /-- A call that should repeat a text but was not recognised. -/
  | unmatched (expression : Text)
  deriving DecidableEq, Repr

/-- A print. -/
structure Print where
  /-- What is printed. -/
  argument : Argument
  /-- The place of the print. -/
  span : Span
  deriving DecidableEq, Repr

/-- A statement. -/
inductive Statement
  /-- An assignment. -/
  | assignment (a : Assignment)
  /-- A print. -/
  | print (p : Print)
  deriving DecidableEq, Repr

namespace Statement

/-- The assignment that a statement is. -/
def assignment? : Statement → Option Assignment
  | assignment a => some a
  | print _ => none

/-- The print that a statement is. -/
def print? : Statement → Option Print
  | assignment _ => none
  | print p => some p

end Statement

/-- A program. -/
structure Program where
  /-- The language that the program is written in. -/
  dialect : Dialect
  /-- The statements in their order. -/
  statements : List Statement
  deriving DecidableEq, Repr

namespace Program

/-- The assignments of a program in their order. -/
def assignments (p : Program) : List Assignment := p.statements.filterMap Statement.assignment?

/-- The prints of a program in their order. -/
def prints (p : Program) : List Print := p.statements.filterMap Statement.print?

end Program

end Playground
