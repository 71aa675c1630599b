/-
# Values

A variable holds a text or a number.  In JSON a string stands for a text and a number for a
number; nothing else is a value.
-/
import Playground.Json.Number
import Playground.Number.Layout

namespace Playground

/-- What a variable holds. -/
inductive Value
  /-- A text. -/
  | text (s : Text)
  /-- A number. -/
  | number (x : Binary64)
  deriving DecidableEq, Repr

namespace Value

/-- A value as it is printed. -/
def toText : Value → Text
  | text s => s
  | number x => x.toText

/-- The value that a JSON value denotes. -/
def ofJson? : Json → Option Value
  | .string s => some (text s)
  | j => j.number?.map number

end Value

end Playground
