/-
# Counts

A count is the whole part of a number.  What is no number counts as zero, a negative or infinite
one is refused, and a count beyond the 64-bit words is cut down to the largest of them.
-/
import Playground.Evaluation.Fault
import Playground.Number.Layout
import Playground.Number.Numeral

namespace Playground

/-- The largest 64-bit word, at which counts and sizes stop. -/
def maxWord : Nat := UInt64.size - 1

/-- `n`, or the largest word if it is beyond. -/
def saturate (n : Nat) : Nat := min n maxWord

namespace Binary64

/-- The largest finite number. -/
def largest : Binary64 := ofCode false (infinityCode - 1)

/-- How often a number says that something is done, of any size. -/
def times (x : Binary64) : Except Fault Nat :=
  match x.meaning with
  | .notANumber => .ok 0
  | .infinite _ => .error (.invalidCount x.toText)
  | .finite negative units =>
    if negative && units / unitsPerOne != 0 then .error (.invalidCount x.truncated.toText)
    else .ok (units / unitsPerOne)

/-- How often a number says that something is done, as a 64-bit word. -/
def count (x : Binary64) : Except Fault Nat := x.times.map saturate

/-- The whole number that a text begins with, behind spaces and an optional sign. -/
def leading? (s : Text) : Option Binary64 :=
  let (negative, rest) := Numeral.splitSign s.trimStart
  let digits := rest.takeWhile Char.isDigit
  if digits = [] then none else some (Decimal.nearest negative ⟨Text.toNat digits, 0⟩)

end Binary64

end Playground
