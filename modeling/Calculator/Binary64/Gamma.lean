import Calculator.Binary64.Elementary
/-!
# The gamma function at whole numbers

At a positive whole number the gamma function has the factorial of the number before.  As long as the factorial is a
double itself this is its value; further on it is computed by a rational approximation in the arithmetic of the machine,
and its last bits are those of the approximation.
-/
namespace Calculator

/-- The product of the numbers from one to `n`. -/
def natFactorial : Nat → Nat
  | 0 => 1
  | n + 1 => (n + 1) * natFactorial n

namespace Gamma

/-- The last number at which the value is exact. -/
def lastExact : Nat := 23

/-- Beyond this number there is nothing to compute. -/
def lastFinite : Nat := 200

/-- The coefficients of the two polynomials of the approximation, from the constant ones up. -/
def coefficients : List (Float × Float) := [
  (23531376880.41076, 0),
  (42919803642.6491, 39916800),
  (35711959237.35567, 120543840),
  (17921034426.03721, 150917976),
  (6039542586.352028, 105258076),
  (1439720407.3117216, 45995730),
  (248874557.86205417, 13339535),
  (31426415.585400194, 2637558),
  (2876370.6289353725, 357423),
  (186056.26539522348, 32670),
  (8071.672002365816, 1925),
  (210.82427775157936, 66),
  (2.5066282746310002, 1)]

/-- The quotient of the two polynomials, both divided by the same power of `x`. -/
def quotient (x : Float) : Float :=
  let (num, den) := coefficients.foldl (fun (num, den) (a, b) => (num / x + a, den / x + b)) (0, 0)
  num / den

/-- The approximation at a large whole number.  The sum in it is exact, and from some number on the power is taken in
two halves, which stay in range. -/
def approximation (x : Float) : Float :=
  let y := x + 5.524680040776729583740234375
  let scale := quotient x / y.exp
  if x < 140 then scale * y.pow (x - 0.5)
  else
    let half := y.pow (x / 2 - 0.25)
    scale * half * half

/-- The gamma function at a positive whole number. -/
def atWhole (x : Binary64) : Binary64 :=
  let n := x.wholePart
  if n ≤ lastExact then .ofInt (natFactorial (n - 1))
  else if lastFinite < n then .infinite false
  else .ofMachine approximation x

end Gamma
end Calculator
