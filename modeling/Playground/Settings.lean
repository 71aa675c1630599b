/-
# Settings of a run

A run has a limit on its output and a message for the case that nothing is printed.  Settings may
be given in JSON: as an object, where a member that is missing keeps its default and an unknown
one is passed over, or as an array of the limit and the message, which may end early.
-/
import Playground.Json.Basic

namespace Playground

/-- The settings of a run. -/
structure Settings where
  /-- How many bytes the output may have, newlines included. -/
  outputLimit : UInt64 := 1048576
  /-- What takes the place of the output if nothing is printed. -/
  silentMessage : Text := "Program executed, but produced no output".toList
  deriving DecidableEq, Repr

namespace Settings

/-- The 64-bit word that a JSON value denotes. -/
def word? (j : Json) : Option UInt64 :=
  (j.nat?.filter (· < UInt64.size)).map UInt64.ofNat

/-- The value of a field, or `default` if it is missing. -/
def fieldOr? {α : Type} (default : α) (read : Json → Option α) : Option Json → Option α
  | none => some default
  | some value => read value

/-- The settings with the limit and the message given. -/
def ofFields? (limit message : Option Json) : Option Settings := do
  let defaults : Settings := {}
  let outputLimit ← fieldOr? defaults.outputLimit word? limit
  let silentMessage ← fieldOr? defaults.silentMessage Json.string? message
  return ⟨outputLimit, silentMessage⟩

/-- The settings that a JSON value denotes. -/
def ofJson? : Json → Option Settings
  | .array [] => ofFields? none none
  | .array [limit] => ofFields? (some limit) none
  | .array [limit, message] => ofFields? (some limit) (some message)
  | .object members =>
    let j := Json.object members
    ofFields? (j.member? "max_output_bytes".toList) (j.member? "no_output_message".toList)
  | _ => none

end Settings

end Playground
