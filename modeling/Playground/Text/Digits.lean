/-
# Digits

Digits stand for natural numbers, in base ten or in another one, where letters of either case
go on after `9`.  Only ASCII characters are digits.
-/
import Playground.Text.Basic

namespace Playground

namespace Text

/-- The decimal digits of `n`. -/
def ofNat (n : Nat) : Text := Nat.toDigits 10 n

/-- The number that a text of decimal digits denotes. -/
def toNat (s : Text) : Nat := s.foldl (fun n c => 10 * n + (c.toNat - '0'.toNat)) 0

/-- Whether `s` is a nonempty text of decimal digits. -/
def isDigits (s : Text) : Bool := !s.isEmpty && s.all Char.isDigit

/-- The value of a digit. -/
def digitValue (c : Char) : Option Nat :=
  if '0' ≤ c ∧ c ≤ '9' then some (c.toNat - '0'.toNat)
  else if 'a' ≤ c ∧ c ≤ 'z' then some (c.toNat - 'a'.toNat + 10)
  else if 'A' ≤ c ∧ c ≤ 'Z' then some (c.toNat - 'A'.toNat + 10)
  else none

/-- The value of a digit in base `base`. -/
def digitIn (base : Nat) (c : Char) : Option Nat := (digitValue c).filter (· < base)

end Text

end Playground
