/-
# Binary64 numbers

A number is a 64-bit word in the IEEE 754 binary64 format.  Below its sign bit stands its
*code*: codes are ordered as the magnitudes are, the code `infinityCode` stands for infinity
and a larger one for no number at all.  Every finite magnitude is a natural number of *units*
of `2 ^ -1074`, the least positive number, so that exact arithmetic on numbers is arithmetic on
naturals.
-/

namespace Playground

/-- A number in the IEEE 754 binary64 format. -/
structure Binary64 where
  /-- The sign bit, eleven bits of exponent and 52 bits of fraction. -/
  bits : UInt64
  deriving DecidableEq, Repr

namespace Binary64

/-! ## Codes -/

/-- The value of the sign bit. -/
def signBit : Nat := 0x8000000000000000

/-- The number of codes that share an exponent: one for each fraction of 52 bits. -/
def fractions : Nat := 0x10000000000000

/-- The code of infinity: exponent bits all set, no fraction. -/
def infinityCode : Nat := 0x7FF * fractions

/-- The bits below the sign. -/
def code (x : Binary64) : Nat := x.bits.toNat % signBit

/-- Whether the sign bit is set. -/
def isNegative (x : Binary64) : Bool := signBit ≤ x.bits.toNat

/-- The number with a given sign and code. -/
def ofCode (negative : Bool) (code : Nat) : Binary64 :=
  ⟨UInt64.ofNat ((if negative then signBit else 0) + code)⟩

/-- The number of units that a finite code stands for.  With the least exponent the code counts
the units.  With any other the fraction has one more bit in front, and each further exponent
doubles. -/
def units (code : Nat) : Nat :=
  if code < fractions then code
  else (fractions + code % fractions) * Nat.pow 2 (code / fractions - 1)

/-- How many units make up the number one. -/
def unitsPerOne : Nat := Nat.pow 2 1074

/-! ## Meanings -/

/-- What a word in the format stands for. -/
inductive Meaning
  /-- No number. -/
  | notANumber
  /-- Infinity of either sign. -/
  | infinite (negative : Bool)
  /-- A finite number with its magnitude in units; zero too has a sign. -/
  | finite (negative : Bool) (units : Nat)
  deriving DecidableEq, Repr

/-- What `x` stands for. -/
def meaning (x : Binary64) : Meaning :=
  if x.code < infinityCode then .finite x.isNegative (units x.code)
  else if x.code = infinityCode then .infinite x.isNegative
  else .notANumber

/-- Infinity of either sign. -/
def infinity (negative : Bool) : Binary64 := ofCode negative infinityCode

/-- The number written for "not a number" where a word has to stand. -/
def notANumber : Binary64 := ofCode false (infinityCode + fractions / 2)

end Binary64

end Playground
