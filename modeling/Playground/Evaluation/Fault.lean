/-
# Faults

The ways in which printing can fail.
-/
import Playground.Text.Digits

namespace Playground

/-- A failure to print. -/
inductive Fault
  /-- A variable that holds a number was to be repeated. -/
  | repeatedNumber (name : Text)
  /-- A count was negative or infinite. -/
  | invalidCount (count : Text)
  /-- The output would exceed its limit. -/
  | outputLimit (limit : UInt64)
  deriving DecidableEq, Repr

namespace Fault

/-- The message of a fault. -/
def message : Fault → Text
  | repeatedNumber name =>
    "cannot repeat '".toList ++ name ++ "': expected a string, found a number".toList
  | invalidCount count => "invalid count value: ".toList ++ count
  | outputLimit limit =>
    "output exceeds the limit of ".toList ++ Text.ofNat limit.toNat ++ " bytes".toList

end Fault

end Playground
