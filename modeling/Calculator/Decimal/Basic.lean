import Calculator.Binary64.Rounding
/-!
# Decimals

A decimal is a whole coefficient times a power of ten.  `Decimal.toBinary64` reads one as the nearest double, from the
exact quotient, whatever the number of its digits.  An exponent may be so large that its power of ten should not be
computed; then the result is known without it, and the two bounds are chosen so that this is sure.
-/
namespace Calculator

/-- The number `coefficient * 10 ^ exponent`. -/
structure Decimal where
  coefficient : Nat
  exponent : Int
deriving DecidableEq

namespace Decimal

/-- A number of at least `10 ^ 310` is infinite as a double. -/
def overflowExponent : Nat := 310

/-- A number below `10 ^ -330` is zero as a double. -/
def underflowExponent : Nat := 330

/-- The nearest double.  A coefficient is below `10 ^ (log2 + 1)`, which bounds the number from its exponent. -/
def toBinary64 (negative : Bool) (d : Decimal) : Binary64 :=
  if d.coefficient = 0 then .zero negative
  else
    match d.exponent with
    | .ofNat up =>
      if overflowExponent < up then .infinite negative
      else .ofQuotient negative (d.coefficient * Nat.pow 10 up * quantaPerUnit) 1
    | .negSucc k =>
      let down := k + 1
      if d.coefficient.log2 + underflowExponent < down then .zero negative
      else .ofQuotient negative (d.coefficient * quantaPerUnit) (Nat.pow 10 down)

end Decimal
end Calculator
