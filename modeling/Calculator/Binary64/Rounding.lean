import Calculator.Binary64.Basic
/-!
# Rounding to the nearest double

One function rounds every result of the calculator: it takes the exact magnitude as a quotient of two natural numbers of
quanta and gives the rank of the nearest double.  `rankBelow` finds the last rank whose size does not exceed the
quotient; the candidates are that rank and the next, and of two that are equally near the even one is taken.  A quotient
half a step beyond the largest finite double, or further, comes out at `rankLimit` or above, and is infinite.
-/
namespace Calculator

/-- The last rank whose size is at most `q` quanta. -/
def rankBelow (q : Nat) : Nat :=
  let doubled := q.log2 - 52
  doubled * binade + q / Nat.pow 2 doubled

/-- The rank of the double nearest to `num / den` quanta, the even one of two that are equally near. -/
def nearestRank (num den : Nat) : Nat :=
  let below := rankBelow (num / den)
  let midpoint := (sizeAt below + sizeAt (below + 1)) * den
  if 2 * num < midpoint then below
  else if 2 * num = midpoint then below + below % 2
  else below + 1

namespace Binary64

/-- The double at a rank, infinite if no finite double has it. -/
def atRank (negative : Bool) (rank : Nat) : Binary64 :=
  if h : rank < rankLimit then .finite negative ⟨rank, h⟩ else .infinite negative

/-- The double nearest to `num / den` quanta. -/
def ofQuotient (negative : Bool) (num den : Nat) : Binary64 := atRank negative (nearestRank num den)

/-- The double nearest to a whole number of quanta. -/
def ofQuanta (negative : Bool) (q : Nat) : Binary64 := ofQuotient negative q 1

/-- The double nearest to a whole number; zero is positive. -/
def ofInt (i : Int) : Binary64 := ofQuanta (i < 0) (i.natAbs * quantaPerUnit)

end Binary64
end Calculator
