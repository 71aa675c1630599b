/-
# Numbers in JSON

A number is taken up as a significand and a power of ten.  The significand has as many of the
digits as 64 bits hold; the digits of the whole part that are left over count by their places
alone, and those of the fraction do not count.  The rounded significand is then scaled, so that
the result can be a neighbour of the number nearest to the text.  A number that exceeds the
format has no value.
-/
import Playground.Json.Basic
import Playground.Number.Numeral
import Playground.Number.Scaling

namespace Playground

namespace Json

/-- Appends digits to `n` up to the first one with which it would not fit into 64 bits, and
leaves the digits from there on. -/
def appendDigits (n : Nat) : Text → Nat × Text
  | [] => (n, [])
  | c :: s =>
    let longer := 10 * n + Text.toNat [c]
    if longer < UInt64.size then appendDigits longer s else (n, c :: s)

/-- The code of the magnitude with the digits given before and after the decimal point. -/
def magnitude? (whole fraction : Text) (exponent : Int) : Option Nat :=
  let (upper, further) := appendDigits 0 whole
  let (significand, lost) := appendDigits upper fraction
  let places := exponent + further.length - fraction.length + lost.length
  let code := Binary64.nearestCode (significand * Binary64.unitsPerOne) 1
  if 0 ≤ places then Binary64.scaleUp? code places.toNat
  else some (Binary64.scaleDown code (-places).toNat)

/-- The value of a number. -/
def number? : Json → Option Binary64
  | .number text =>
    match Numeral.readSigned? text with
    | some (.decimal negative whole fraction exponent) =>
      (magnitude? whole fraction exponent).map (Binary64.ofCode negative)
    | _ => none
  | _ => none

end Json

end Playground
