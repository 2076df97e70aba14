import Calculator.Decimal.Shortest
/-!
# How doubles are written

`Binary64.literalText` writes a double so that it reads back and shows that it is one: with a point or an exponent.
`Binary64.resultText` is what a user sees as a result: whole numbers that are exact in every digit lose their point.
-/
namespace Calculator

/-- Numbers whose leading digit has an exponent from here … -/
def leastPointed : Int := -4

/-- … to below here are written without an exponent. -/
def mostPointed : Int := 16

namespace Decimal

/-- Digits with the point `point` places behind the first of them; a digit stands on either side of it. -/
def pointed (digits : Text) (point : Int) : Text :=
  if point ≤ 0 then '0' :: '.' :: List.replicate (-point).toNat '0' ++ digits
  else if digits.length ≤ point then digits ++ List.replicate (point.toNat - digits.length) '0' ++ ['.', '0']
  else digits.take point.toNat ++ '.' :: digits.drop point.toNat

/-- Digits with the point behind the first of them, if more follow, and the exponent of that digit. -/
def scientific (digits : Text) (exponent : Int) : Text :=
  digits.take 1 ++ (if digits.length ≤ 1 then [] else '.' :: digits.drop 1)
    ++ 'e' :: (if exponent < 0 then '-' else '+') :: zeroPadded 2 (numeral exponent.natAbs)

/-- A positive decimal, written by its significant digits. -/
def text (d : Decimal) : Text :=
  let all := numeral d.coefficient
  let digits := (all.reverse.dropWhile (· == '0')).reverse
  let leading := d.exponent + all.length - 1
  if leastPointed ≤ leading ∧ leading < mostPointed then pointed digits (leading + 1) else scientific digits leading

end Decimal

namespace Binary64

/-- A double as it is written in logs and in trees. -/
def literalText : Binary64 → Text
  | nan => "nan".toList
  | infinite negative => if negative then "-inf".toList else "inf".toList
  | finite negative rank =>
    let magnitude := if rank.val = 0 then "0.0".toList else (Decimal.shortest rank).text
    if negative then '-' :: magnitude else magnitude

/-- Whole results below this are written without a point. -/
def wholeLimit : Nat := Nat.pow 10 16

/-- A double as it is written as a result. -/
def resultText (x : Binary64) : Text :=
  if x.isIntegral ∧ x.wholePart < wholeLimit then
    signedNumeral (if x.isNegative then -(x.wholePart : Int) else x.wholePart)
  else x.literalText

end Binary64
end Calculator
