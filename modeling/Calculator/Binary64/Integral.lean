import Calculator.Binary64.Rounding
/-!
# Rounding to whole numbers and to decimal places

`floor`, `ceil` and `trunc` go through a whole number, which has only one zero, so a result of zero is positive.
Rounding to decimal places works on the exact value of the double and keeps its sign.
-/
namespace Calculator
namespace Binary64

/-- A function of the value in quanta, for finite doubles; the others stay as they are. -/
def toWhole (round : Int → Int) (x : Binary64) : Binary64 :=
  if x.isFinite then ofInt (round x.signedQuanta) else x

def floor : Binary64 → Binary64 := toWhole fun q => q.fdiv quantaPerUnit

def ceil : Binary64 → Binary64 := toWhole fun q => -(-q).fdiv quantaPerUnit

def trunc : Binary64 → Binary64 := toWhole fun q => q.tdiv quantaPerUnit

/-! ## Decimal places -/

/-- With this many decimal places every finite double is exact. -/
def exactPlaces : Nat := 1074

/-- The whole number nearest to `num / den`, the greater of two that are equally near. -/
def roundHalfUp (num den : Nat) : Nat := (2 * num + den) / (2 * den)

/-- A magnitude rounded to decimal places, halves away from zero, and then to the nearest double. -/
def roundToPlaces (places : Nat) (x : Binary64) : Binary64 :=
  let scaled := roundHalfUp (x.quanta * Nat.pow 10 places) quantaPerUnit
  ofQuotient x.isNegative (scaled * quantaPerUnit) (Nat.pow 10 places)

/-- Rounding to a number of decimal places that is itself a double: there is no result unless it is a whole number that
is not negative. -/
def round (x places : Binary64) : Binary64 :=
  if !places.isIntegral || places.lt (zero false) then nan
  else if !x.isFinite || exactPlaces < places.wholePart then x
  else roundToPlaces places.wholePart x

end Binary64
end Calculator
