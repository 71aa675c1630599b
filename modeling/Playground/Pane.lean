/-
# The output pane

An editor shows the outcome of a run in a pane, in a frame for success or for failure.  Its
button refuses some programs before they are run: it is stricter than the rules of a dialect, as
it wants a Python program to print.
-/
import Playground.Report

namespace Playground

namespace Pane

/-- The frame of an output. -/
def ofOutput (output : Text) : Text :=
  "=== Execution Result ===\n".toList ++ output ++ "\n[Program executed successfully]".toList

/-- The frame of a message about a failure. -/
def ofMessage (message : Text) : Text :=
  "❌ EXECUTION ERROR ❌\n\n".toList ++ message ++ "\n\nPlease fix the code and try again.".toList

/-- The pane of a report.  A report that holds neither an output of a success nor a problem has
no result. -/
def ofReport (r : Report) : Text :=
  match r.success, r.output, r.problem with
  | true, some output, _ => ofOutput output
  | _, _, some problem => ofMessage problem.message
  | _, _, none => ofMessage "No result".toList

/-- Why the button refuses a program, if it does. -/
def refusal? (d : Dialect) (s : Text) : Option Text :=
  if s.isBlank then some "Error: empty code".toList
  else
    match d with
    | .python =>
      if s.includes "print(".toList then none
      else some "Error: code must contain at least one print() command".toList
    | .go =>
      if s.includes "package main".toList then none
      else some "Error: Go code must start with \"package main\"".toList

/-- The pane after the button was pressed, unless a run was begun that has no outcome. -/
def ofPress (settings : Settings) (d : Dialect) (s : Text) : Except Unformed Text :=
  match refusal? d s with
  | some message => .ok (ofMessage message)
  | none => (Report.ofRun settings d s).map ofReport

end Pane

end Playground
