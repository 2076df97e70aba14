import Calculator.Binary64.Gamma
/-!
# The platform

Two things are not the same on every platform that the calculator may run on: how many levels of a tree there is room
for on the stack, and the last bits of the gamma function where its values are no doubles.  All that is said about
evaluation holds for any platform; `Platform.usual` is the one that the program runs on.
-/
namespace Calculator

class Platform where
  /-- What an evaluation may spend on the levels of a tree. -/
  stackBudget : Nat
  /-- There is room for an operator at least. -/
  stackBudget_pos : 0 < stackBudget := by decide
  /-- The gamma function at a positive whole number, infinite if the value is out of range. -/
  gamma : Binary64 → Binary64
  gamma_exact : ∀ n < Gamma.lastExact, gamma (.ofInt (n + 1 : Nat)) = .ofInt (natFactorial n)

instance Platform.usual : Platform where
  stackBudget := 1250
  gamma := Gamma.atWhole
  gamma_exact := by decide +kernel

namespace Binary64

/-- The factorial of a whole number that is not negative: the gamma function at the next one. -/
def factorial [Platform] (x : Binary64) : Binary64 :=
  match x with
  | nan => nan
  | infinite negative => if negative then nan else infinite false
  | finite .. =>
    if x.lt (zero false) || !x.isIntegral then nan
    else
      match Platform.gamma (x.add one) with
      | infinite _ => infinite false
      | value => value

end Binary64
end Calculator
