/-
# Writing JSON

Values are written in compact form: no blanks, and in a string only the quote, the backslash
and the characters below the space are escaped.  Five of those have a letter of their own.
-/
import Playground.Json.Basic

namespace Playground

namespace Json

/-- The characters with an escape of one letter, each with its letter. -/
def letterEscapes : List (Char × Char) :=
  [('"', '"'), ('\\', '\\'), ('\x08', 'b'), ('\x0c', 'f'), ('\n', 'n'), ('\r', 'r'), ('\t', 't')]

/-- The written form of one character of a string. -/
def escape (c : Char) : Text :=
  match letterEscapes.lookup c with
  | some letter => ['\\', letter]
  | none =>
    if c < ' ' then
      ['\\', 'u', '0', '0', Nat.digitChar (c.toNat / 16), Nat.digitChar (c.toNat % 16)]
    else [c]

/-- The written form of a string, between its quotes. -/
def writeString (s : Text) : Text := '"' :: s.flatMap escape ++ ['"']

mutual

/-- The written form of a value. -/
def write : Json → Text
  | .null => "null".toList
  | .bool value => (if value then "true" else "false").toList
  | .number text => text
  | .string value => writeString value
  | .array items => '[' :: writeItems items ++ [']']
  | .object members => '\x7b' :: writeMembers members ++ ['\x7d']

/-- The written form of the items of an array. -/
def writeItems : List Json → Text
  | [] => []
  | [item] => write item
  | item :: items => write item ++ ',' :: writeItems items

/-- The written form of the members of an object. -/
def writeMembers : List (Text × Json) → Text
  | [] => []
  | [(key, value)] => writeString key ++ ':' :: write value
  | (key, value) :: members =>
    writeString key ++ ':' :: (write value ++ ',' :: writeMembers members)

end

end Json

end Playground
