/-
# Rounding to the nearest number

Every result that has no exact form is the number nearest to it, and of two equally near ones
the one with the even code.  A fraction of units decides: how far its whole part exceeds 53
bits gives the exponent, and the quotient at that exponent is rounded to a whole significand.
A significand that rounds up to `2 ^ 53` runs into the next exponent by plain addition, and
what would lie beyond the largest finite number is infinity.
-/
import Playground.Number.Binary64

namespace Playground

/-- The whole number nearest to `num / den`; of two equally near ones the even one. -/
def divNearest (num den : Nat) : Nat :=
  let quotient := num / den
  let twice := 2 * (num % den)
  if twice < den then quotient
  else if den < twice then quotient + 1
  else quotient + quotient % 2

namespace Binary64

/-- The code of the number nearest to `num / den` units. -/
def nearestCode (num den : Nat) : Nat :=
  let shift := (num / den).log2 - 52
  min infinityCode (shift * fractions + divNearest num (den * Nat.pow 2 shift))

/-- The number nearest to `num / den`, with the sign given. -/
def nearest (negative : Bool) (num den : Nat) : Binary64 :=
  ofCode negative (nearestCode (num * unitsPerOne) den)

/-- The number without its fractional part.  The sign stays, also that of zero. -/
def truncated (x : Binary64) : Binary64 :=
  match x.meaning with
  | .finite negative units => nearest negative (units / unitsPerOne) 1
  | _ => x

end Binary64

end Playground
