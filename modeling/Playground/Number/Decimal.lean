/-
# Decimals

A decimal is a whole number of digits times a power of ten.  Its *point* is the number of
digits that stand before the decimal point, negative if zeros stand behind it first.

The number nearest to a decimal is found in exact arithmetic.  A point beyond the range of
the format settles the answer before a large power is formed.
-/
import Playground.Number.Nearest
import Playground.Text.Digits

namespace Playground

/-- The decimal `digits * 10 ^ exponent`. -/
structure Decimal where
  /-- The digits, read as a whole number. -/
  digits : Nat
  /-- The power of ten that the digits are multiplied with. -/
  exponent : Int
  deriving DecidableEq, Repr

namespace Decimal

/-- The number of digits that `n` is written with. -/
def digitCount (n : Nat) : Nat := (Text.ofNat n).length

/-- The place of the decimal point: a decimal other than zero lies from `10 ^ (point - 1)` to
below `10 ^ point`. -/
def point (d : Decimal) : Int := digitCount d.digits + d.exponent

/-- The code of the number nearest to `d`. -/
def nearestCode (d : Decimal) : Nat :=
  if d.digits = 0 ∨ d.point < -330 then 0
  else if 330 < d.point then Binary64.infinityCode
  else if 0 ≤ d.exponent then
    Binary64.nearestCode (d.digits * Nat.pow 10 d.exponent.toNat * Binary64.unitsPerOne) 1
  else Binary64.nearestCode (d.digits * Binary64.unitsPerOne) (Nat.pow 10 (-d.exponent).toNat)

/-- The number nearest to `d`, with the sign given. -/
def nearest (negative : Bool) (d : Decimal) : Binary64 := Binary64.ofCode negative d.nearestCode

end Decimal

end Playground
