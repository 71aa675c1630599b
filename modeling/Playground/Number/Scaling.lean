/-
# Scaling by powers of ten

A magnitude is scaled by multiplying or dividing it with a power of ten that is a number itself.
The power, the product and the quotient are each rounded to the nearest number.  The largest
power in the format is `10 ^ 308`; a division by a larger one is done in two steps.
-/
import Playground.Number.Nearest

namespace Playground

namespace Binary64

/-- The code nearest to the product of two finite magnitudes. -/
def product (a b : Nat) : Nat := nearestCode (units a * units b) unitsPerOne

/-- The code nearest to the quotient of two finite magnitudes. -/
def quotient (a b : Nat) : Nat := nearestCode (units a * unitsPerOne) (units b)

/-- The exponent of the largest power of ten that is finite in the format. -/
def greatestTen : Nat := 308

/-- The code nearest to `10 ^ n`. -/
def powerOfTen (n : Nat) : Nat := nearestCode (Nat.pow 10 n * unitsPerOne) 1

/-- The magnitude times `10 ^ n`, if the power and the product are finite.  Zero stays zero. -/
def scaleUp? (code n : Nat) : Option Nat :=
  if code = 0 then some 0
  else if greatestTen < n then none
  else
    let scaled := product code (powerOfTen n)
    if scaled < infinityCode then some scaled else none

/-- The magnitude divided by `10 ^ n`, for a magnitude below `10 ^ 20`: two divisions by the
largest power leave nothing of it. -/
def scaleDown (code n : Nat) : Nat :=
  if n ≤ greatestTen then quotient code (powerOfTen n)
  else if n ≤ 2 * greatestTen then
    quotient (quotient code (powerOfTen greatestTen)) (powerOfTen (n - greatestTen))
  else 0

end Binary64

end Playground
