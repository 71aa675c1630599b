/-
# The version

The version by which the playground makes itself known.
-/
import Playground.Text.Basic

namespace Playground

/-- The version of the playground. -/
def version : Text := "0.1.0".toList

end Playground
