import Calculator.Binary64.Rounding
/-!
# Arithmetic

The operations of IEEE 754 on doubles, each the exact result rounded once.  Sizes are counted in quanta, so the exact
result is always a quotient of natural numbers: a sum is a whole number of quanta, a product of `a` and `b` quanta is
`a * b / quantaPerUnit` quanta, and a quotient of them is `a * quantaPerUnit / b`.  Invalid operations give a NaN, and
the sign of a zero or an infinite result is that of the exact operation.
-/
namespace Calculator
namespace Binary64

/-! ## Sum and product -/

/-- The sum.  Opposite numbers cancel to the positive zero. -/
def add : Binary64 → Binary64 → Binary64
  | nan, _ | _, nan => nan
  | infinite a, infinite b => if a = b then infinite a else nan
  | infinite a, finite .. => infinite a
  | finite .., infinite b => infinite b
  | x@(finite a _), y@(finite b _) =>
    let sum := x.signedQuanta + y.signedQuanta
    if sum = 0 then zero (a && b) else ofQuanta (sum < 0) sum.natAbs

def sub (x y : Binary64) : Binary64 := add x y.neg

def mul : Binary64 → Binary64 → Binary64
  | nan, _ | _, nan => nan
  | infinite a, infinite b => infinite (a != b)
  | infinite a, y@(finite b _) => if y.isZero then nan else infinite (a != b)
  | x@(finite a _), infinite b => if x.isZero then nan else infinite (a != b)
  | x@(finite a _), y@(finite b _) => ofQuotient (a != b) (x.quanta * y.quanta) quantaPerUnit

/-! ## Quotient and remainder -/

/-- The quotient.  Anything but a zero or a NaN divided by a zero is infinite. -/
def div : Binary64 → Binary64 → Binary64
  | nan, _ | _, nan => nan
  | infinite _, infinite _ => nan
  | infinite a, finite b _ => infinite (a != b)
  | finite a _, infinite b => zero (a != b)
  | x@(finite a _), y@(finite b _) =>
    if y.isZero then if x.isZero then nan else infinite (a != b)
    else ofQuotient (a != b) (x.quanta * quantaPerUnit) y.quanta

/-- What is left of `x` after taking `y` away as often as it fits: the sign of `x`, a magnitude below that of `y`.
Infinite operands and division by zero have none. -/
def rem : Binary64 → Binary64 → Binary64
  | x@(finite a _), y@(finite ..) => if y.isZero then nan else ofQuanta a (x.quanta % y.quanta)
  | _, _ => nan

/-! ## Square root -/

/-- The greatest number whose square is at most `n`, found from that of `n / 4`. -/
def floorSqrt (n : Nat) : Nat :=
  if n = 0 then 0
  else
    let root := 2 * floorSqrt (n / 4)
    if (root + 1) * (root + 1) ≤ n then root + 1 else root
termination_by n

/-- What `floorSqrt` finds is the whole part of the square root. -/
theorem floorSqrt_bounds (n : Nat) : floorSqrt n * floorSqrt n ≤ n ∧ n < (floorSqrt n + 1) * (floorSqrt n + 1) := by
  induction n using Nat.strongRecOn with
  | _ n ih =>
    rw [floorSqrt]
    by_cases h0 : n = 0
    · simp [h0]
    · obtain ⟨hle, hlt⟩ := ih (n / 4) (by omega)
      simp only [h0, if_false]
      generalize floorSqrt (n / 4) = s at hle hlt
      have hsquare : 2 * s * (2 * s) = 4 * (s * s) := by grind
      have hnext : (2 * s + 1 + 1) * (2 * s + 1 + 1) = 4 * ((s + 1) * (s + 1)) := by grind
      split
      · rename_i h
        exact ⟨h, by omega⟩
      · rename_i h
        exact ⟨by omega, by omega⟩

/-- The square root.  The root of a positive double is at least `2 ^ 537` quanta, so the doubles around it and the
points half way between them are whole numbers of quanta: to round it, the whole part and whether there is more of it
are enough. -/
def sqrt : Binary64 → Binary64
  | nan => nan
  | infinite negative => if negative then nan else infinite false
  | x@(finite negative _) =>
    if x.isZero then x
    else if negative then nan
    else
      let square := x.quanta * quantaPerUnit
      let root := floorSqrt square
      ofQuotient false (if root * root = square then 2 * root else 2 * root + 1) 2

end Binary64
end Calculator
