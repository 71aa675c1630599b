/-
# The shortest decimal that reads back

A number is shown by the least count of digits for which some decimal reads back as it, and
among the decimals of that count by the one closest to it; of two equally close ones the larger
is taken.  The decimals of a count of digits lie on a grid around the number, and if any of them
reads back, then so does one of the two next to it.
-/
import Playground.Number.Decimal

namespace Playground

namespace Decimal

/-- The place of the decimal point of the number with a positive finite code.  No finite number
but zero lies below `10 ^ -324`. -/
def pointOfCode (code : Nat) : Int :=
  digitCount (Binary64.units code * Nat.pow 10 324 / Binary64.unitsPerOne) - 324

/-- The decimal on the grid of `10 ^ exponent` that is closest to the number with a positive finite
code, out of the two around the number, if one of them reads back as it. -/
def onGrid? (code : Nat) (exponent : Int) : Option Decimal :=
  let num := Binary64.units code * Nat.pow 10 (-exponent).toNat
  let den := Binary64.unitsPerOne * Nat.pow 10 exponent.toNat
  let below : Decimal := ⟨num / den, exponent⟩
  let above : Decimal := ⟨num / den + 1, exponent⟩
  match below.nearestCode == code, above.nearestCode == code with
  | true, true => some (if 2 * (num % den) < den then below else above)
  | true, false => some below
  | false, true => some above
  | false, false => none

/-- The shortest decimal that reads back as the number with a positive finite code.  Seventeen
digits are always enough. -/
def shortest (code : Nat) : Decimal :=
  let point := pointOfCode code
  ((List.range' 1 17).findSome? fun (digits : Nat) => onGrid? code (point - digits)).getD ⟨0, 0⟩

end Decimal

end Playground
