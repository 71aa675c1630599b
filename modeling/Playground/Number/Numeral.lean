/-
# Numerals

A numeral is the written form of a number: digits in base 16, 8 or 2 behind a mark such as
`0x`, the word `Infinity`, or a decimal with an optional fraction and exponent.  The last two
take a sign, the first does not.

Digits in another base are taken up one at a time, and each step rounds twice, after the
multiplication and after the addition.
-/
import Playground.Number.Decimal
import Playground.Text.Blank
import Playground.Text.Search

namespace Playground

/-- The written form of a number. -/
inductive Numeral
  /-- A whole number by its digits in base `base`. -/
  | based (base : Nat) (digits : List Nat)
  /-- Infinity of either sign. -/
  | infinity (negative : Bool)
  /-- Digits before and after the decimal point, and an exponent of ten. -/
  | decimal (negative : Bool) (whole fraction : Text) (exponent : Int)
  deriving DecidableEq, Repr

namespace Numeral

/-! ## Reading -/

/-- The base that a letter behind a zero stands for. -/
def baseOf? (c : Char) : Option Nat :=
  if c = 'x' ∨ c = 'X' then some 16
  else if c = 'o' ∨ c = 'O' then some 8
  else if c = 'b' ∨ c = 'B' then some 2
  else none

/-- Reads a zero, the letter of a base and at least one digit in that base. -/
def readBased? : Text → Option Numeral
  | '0' :: mark :: digit :: digits => do
    let base ← baseOf? mark
    let values ← (digit :: digits).mapM (Text.digitIn base)
    some (.based base values)
  | _ => none

/-- Whether a minus sign stands in front, and the text behind the sign if there is one. -/
def splitSign : Text → Bool × Text
  | '-' :: s => (true, s)
  | '+' :: s => (false, s)
  | s => (false, s)

/-- Reads an exponent of ten to the end of the text; an absent one is zero. -/
def readExponent? : Text → Option Int
  | [] => some 0
  | mark :: s =>
    let (negative, digits) := splitSign s
    if (mark = 'e' ∨ mark = 'E') ∧ Text.isDigits digits then
      some (if negative then -(Text.toNat digits : Int) else Text.toNat digits)
    else none

/-- Reads the digits behind a decimal point, if one stands in front, and what follows them. -/
def splitFraction : Text → Text × Text
  | '.' :: s => (s.takeWhile Char.isDigit, s.dropWhile Char.isDigit)
  | s => ([], s)

/-- Reads a decimal without its sign.  A digit must stand before or after the point. -/
def readDecimal? (negative : Bool) (s : Text) : Option Numeral :=
  let whole := s.takeWhile Char.isDigit
  let (fraction, rest) := splitFraction (s.dropWhile Char.isDigit)
  if whole = [] ∧ fraction = [] then none
  else (readExponent? rest).map (.decimal negative whole fraction)

/-- Reads a numeral that takes a sign. -/
def readSigned? (s : Text) : Option Numeral :=
  let (negative, rest) := splitSign s
  if rest = "Infinity".toList then some (.infinity negative) else readDecimal? negative rest

/-- Reads a text that is a numeral from end to end. -/
def read? (s : Text) : Option Numeral := (readBased? s).or (readSigned? s)

/-! ## Values -/

/-- Takes up one more digit: the code of the base times the number so far, rounded, plus the
digit, rounded again. -/
def appendDigit (base code digit : Nat) : Nat :=
  let product := Binary64.nearestCode (Binary64.units code * base) 1
  Binary64.nearestCode (Binary64.units product + digit * Binary64.unitsPerOne) 1

/-- The number that a numeral denotes. -/
def value : Numeral → Binary64
  | .based base digits => Binary64.ofCode false (digits.foldl (appendDigit base) 0)
  | .infinity negative => Binary64.infinity negative
  | .decimal negative whole fraction exponent =>
    Decimal.nearest negative ⟨Text.toNat (whole ++ fraction), exponent - fraction.length⟩

end Numeral

/-- The number that a text denotes, if it is a numeral with spaces around it. -/
def Binary64.read? (s : Text) : Option Binary64 := (Numeral.read? s.trim).map Numeral.value

end Playground
