import Calculator.Decimal.Basic
import Calculator.Text.Basic
/-!
# The shortest decimal that reads back

The numbers that round to a double form an interval around it, whose ends are half way to its neighbours and belong to
it iff its rank is even.  For 1, 2, … 17 digits the decimals of that many digits form a grid, and the first grid with a
point in the interval gives the decimal: the nearer of the double's two neighbours on the grid if both are inside, and
of two that are equally near the one with an even last digit.  Seventeen digits are always enough; should no grid have
hit, the exact value of the double is a decimal too and is given in its place.

All comparisons are between natural numbers: the double is `sizeAt rank` quanta, and so on the grid of exponent `e` it
stands at `sizeAt rank / quantaPerUnit` steps divided by `10 ^ e`.
-/
namespace Calculator
namespace Decimal

/-- The exponent of the leading digit of a positive double.  Scaled by `10 ^ 324` every positive double is at least
one, and its whole part has as many digits as it has itself before that place. -/
def leadingExponent (rank : Nat) : Int := (numeral (sizeAt rank * Nat.pow 10 324 / quantaPerUnit)).length - 1 - 324

/-- Whether a multiple of the step `num / den` quanta rounds to the double at a positive rank. -/
def rounds (rank num den coefficient : Nat) : Bool :=
  let low := (sizeAt (rank - 1) + sizeAt rank) * den
  let high := (sizeAt rank + sizeAt (rank + 1)) * den
  let point := 2 * coefficient * num
  if rank % 2 = 0 then low ≤ point && point ≤ high else low < point && point < high

/-- Of the two multiples of the step `num / den` around the double the one to take, if one of them rounds to it. -/
def nearestOnGrid? (rank num den : Nat) : Option Nat :=
  let below := sizeAt rank * den / num
  let above := below + 1
  match rounds rank num den below, rounds rank num den above with
  | true, true =>
    let middle := (below + above) * num
    let value := 2 * sizeAt rank * den
    some (if value < middle ∨ (value = middle ∧ below % 2 = 0) then below else above)
  | true, false => some below
  | false, true => some above
  | false, false => none

/-- The decimal to take on the grid of an exponent. -/
def onGrid? (rank : Nat) (exponent : Int) : Option Decimal :=
  (nearestOnGrid? rank (quantaPerUnit * Nat.pow 10 exponent.toNat) (Nat.pow 10 (-exponent).toNat)).map (⟨·, exponent⟩)

/-- The exact value of a double. -/
def exact (rank : Nat) : Decimal := ⟨sizeAt rank * Nat.pow 5 1074, -1074⟩

/-- The shortest decimal that reads back as the double at a positive rank. -/
def shortest (rank : Nat) : Decimal :=
  let leading := leadingExponent rank
  ((List.range 17).findSome? fun (more : Nat) => onGrid? rank (leading - more)).getD (exact rank)

end Decimal
end Calculator
