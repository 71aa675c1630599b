/-
# The text of a number

A number is written by its shortest decimal: with a plain decimal point where that takes few
zeros, and with an exponent otherwise.  Zero is written without a sign.
-/
import Playground.Number.Shortest

namespace Playground

namespace Decimal

/-- The least place of the decimal point that is written out. -/
def leastPlainPoint : Int := -5

/-- The greatest place of the decimal point that is written out. -/
def greatestPlainPoint : Int := 21

/-- The digits without the zeros at their end. -/
def significant (d : Decimal) : Text :=
  ((Text.ofNat d.digits).reverse.dropWhile (· = '0')).reverse

/-- Digits with a decimal point after the first `point` of them, and with zeros where the point
lies beyond the digits. -/
def plainText (digits : Text) (point : Int) : Text :=
  if point ≤ 0 then "0.".toList ++ List.replicate (-point).toNat '0' ++ digits
  else if digits.length ≤ point then digits ++ List.replicate (point.toNat - digits.length) '0'
  else digits.take point.toNat ++ '.' :: digits.drop point.toNat

/-- Digits with a decimal point after the first of them and the exponent that makes up for it. -/
def exponentText (digits : Text) (point : Int) : Text :=
  let exponent := point - 1
  digits.take 1 ++ (if digits.length ≤ 1 then [] else '.' :: digits.drop 1)
    ++ ['e', if exponent < 0 then '-' else '+'] ++ Text.ofNat exponent.natAbs

/-- The text of a decimal other than zero. -/
def toText (d : Decimal) : Text :=
  if leastPlainPoint ≤ d.point ∧ d.point ≤ greatestPlainPoint then plainText d.significant d.point
  else exponentText d.significant d.point

end Decimal

namespace Binary64

/-- The minus sign of a number below zero. -/
def signText (negative : Bool) : Text := if negative then ['-'] else []

/-- The text of a number. -/
def toText (x : Binary64) : Text :=
  match x.meaning with
  | .notANumber => "NaN".toList
  | .infinite negative => signText negative ++ "Infinity".toList
  | .finite negative units =>
    if units = 0 then ['0'] else signText negative ++ (Decimal.shortest x.code).toText

end Binary64

end Playground
