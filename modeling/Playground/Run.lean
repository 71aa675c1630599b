/-
# Running a program

A program that keeps the rules of its dialect is evaluated.  The outcome is the text of its output
or a failure.  There is none if the output, or a line of it, is too large to be formed.
-/
import Playground.Evaluation.Evaluate
import Playground.Program.OfTokens
import Playground.Settings
import Playground.Validity

namespace Playground

/-- What an evaluation comes to: its output, or the message for none. -/
def outcome (settings : Settings) :
    Except Fault Transcript → Except Unformed (Except Failure Text)
  | .ok t => t.output?.map fun output => .ok (output.getD settings.silentMessage)
  | .error fault => .ok (.error (.ofFault fault))

/-- Runs a program. -/
def run (settings : Settings) (d : Dialect) (s : Text) : Except Unformed (Except Failure Text) :=
  match validityFailure? d s with
  | some failure => .ok (.error failure)
  | none => outcome settings ((Program.ofText d s).evaluate settings.outputLimit)

end Playground
