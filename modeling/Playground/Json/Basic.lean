/-
# JSON values

A value keeps a number by the text it is written with, since `10`, `10.0` and `-0` are told
apart by those who read them, and it keeps the members of an object in their order.
-/
import Playground.Text.Digits

namespace Playground

/-- A JSON value. -/
inductive Json
  /-- The word `null`. -/
  | null
  /-- The words `true` and `false`. -/
  | bool (value : Bool)
  /-- A number by its text. -/
  | number (text : Text)
  /-- A string. -/
  | string (value : Text)
  /-- An array of values. -/
  | array (items : List Json)
  /-- An object: its members in order, each under a key. -/
  | object (members : List (Text × Json))
  deriving Repr

namespace Json

/-- The number `n`. -/
def ofNat (n : Nat) : Json := .number (Text.ofNat n)

/-- A string that may be missing, which is written `null`. -/
def ofString? : Option Text → Json
  | some value => .string value
  | none => .null

/-- The member under `key` of an object.  If there are several, the last one counts. -/
def member? (key : Text) : Json → Option Json
  | .object members => ((members.filter fun member => member.1 = key).getLast?).map (·.2)
  | _ => none

/-- The only member of an object, by its key and its value.  Members under one key count as
one, which the last of them gives. -/
def onlyMember? : Json → Option (Text × Json)
  | .object members => do
    let last ← members.getLast?
    if members.all fun member => member.1 = last.1 then some last else none
  | _ => none

/-- The text of a string. -/
def string? : Json → Option Text
  | .string value => some value
  | _ => none

/-- The value of a truth value. -/
def bool? : Json → Option Bool
  | .bool value => some value
  | _ => none

/-- The natural number that is written with digits alone. -/
def nat? : Json → Option Nat
  | .number text => if text.isDigits then some text.toNat else none
  | _ => none

/-- The items of an array. -/
def items? : Json → Option (List Json)
  | .array items => some items
  | _ => none

end Json

end Playground
