import Calculator.Proofs.Binary64.Power
import Calculator.Proofs.Binary64.Remainder
/-!
# Arithmetic completed

The platform divides and computes powers as the standards say, but traps where there is no result or none in range.  The
guards put back what the standards say there, from no more than signs and a test for odd numbers, which is a remainder
(`leavesOne_eq`).  So whatever the platform's power function is, if it is one by the standard of C, the guarded one is
the same function without traps (`Guarded.powerOver_eq`), and so is the guarded division (`arithmetic_completed`).
-/
namespace Calculator
namespace Binary64

variable {x y : Binary64}

/-! ## Odd numbers by their remainder -/

/-- The remainder with the sign of the divisor, for a divisor that is neither zero nor infinite. -/
def modulo (x y : Binary64) : Binary64 :=
  let remainder := x.rem y
  if remainder.isZero then zero y.isNegative
  else if remainder.isNegative == y.isNegative then remainder
  else remainder.add y

/-- The double two. -/
def two : Binary64 := ofInt 2

/-- A finite whole number that leaves one when divided by two. -/
def leavesOne (x : Binary64) : Bool := x.isFinite && x.isIntegral && (x.modulo two).same one

theorem two_eq : two = finite false ⟨0x4000000000000000, by decide⟩ := by decide +kernel

theorem sizeAt_two : sizeAt 0x4000000000000000 = 2 * quantaPerUnit := by decide +kernel

theorem modulo_two_of_even {a : Bool} {r : Fin rankLimit} (h : sizeAt r % (2 * quantaPerUnit) = 0) :
    (finite a r).modulo two = zero false := by
  obtain ⟨rank, hsize, hrem⟩ := exists_rem_eq (s := ⟨0x4000000000000000, by decide⟩) a r (by decide)
  have hrank : (finite a rank).isZero = true := by
    rw [isZero, beq_iff_eq]
    apply sizeAt_strictMono.injective
    rw [hsize, sizeAt_two, h, sizeAt_zero]
  rw [two_eq, modulo, hrem, hrank, if_pos rfl, isNegative]

theorem modulo_two_of_odd {a : Bool} {r : Fin rankLimit} (h : sizeAt r % (2 * quantaPerUnit) = quantaPerUnit) :
    (finite a r).modulo two = one := by
  obtain ⟨rank, hsize, hrem⟩ := exists_rem_eq (s := ⟨0x4000000000000000, by decide⟩) a r (by decide)
  have hrank : rank = ⟨0x3FF0000000000000, by decide⟩ := by
    apply Fin.ext
    apply sizeAt_strictMono.injective
    rw [hsize, sizeAt_two, h, sizeAt_one]
  rw [two_eq, modulo, hrem, hrank]
  -- below zero the remainder is minus one, and two more is one again
  cases a
  · decide +kernel
  · decide +kernel

/-- **The remainder tells the odd numbers**, also those below zero and the largest. -/
theorem leavesOne_eq (x : Binary64) : x.leavesOne = x.isOdd := by
  rw [leavesOne, isOdd]
  cases hintegral : x.isIntegral with
  | false => rw [Bool.and_false, Bool.false_and, Bool.false_and]
  | true =>
    have hquanta := quanta_of_isIntegral hintegral
    obtain ⟨a, r, rfl⟩ := exists_finite (isFinite_of_isIntegral hintegral)
    have hmod : sizeAt r % (2 * quantaPerUnit) = (finite a r).wholePart % 2 * quantaPerUnit := by
      rw [← Nat.mul_mod_mul_right, ← hquanta, quanta]
    rw [isFinite, Bool.true_and, Bool.true_and, Bool.true_and]
    rcases Nat.mod_two_eq_zero_or_one (finite a r).wholePart with heven | hodd
    · rw [heven, Nat.zero_mul] at hmod
      rw [heven, modulo_two_of_even hmod, same_one_eq_false (zero_ne_one _)]
      rfl
    · rw [hodd, Nat.one_mul] at hmod
      rw [hodd, modulo_two_of_odd hmod, same_one_iff.2 rfl]
      rfl

end Binary64

open Binary64

variable {pow : Binary64 → Binary64 → Binary64} {x y : Binary64}

/-! ## The platform's power -/

/-- Finite numbers without a power: a negative one to a fraction, a zero to a negative exponent. -/
def Powerless (x y : Binary64) : Prop := x.value < 0 ∧ (¬ ∃ i : ℤ, y.value = i) ∨ x.value = 0 ∧ y.value < 0

namespace Checked

/-- A power function with its traps, which only finite numbers set off. -/
def powerOver (pow : Binary64 → Binary64 → Binary64) (x y : Binary64) : Except Trap Binary64 :=
  if !(x.isFinite && y.isFinite) then .ok (pow x y)
  else if x.lt (zero false) && !y.isIntegral || x.isZero && y.lt (zero false) then .error .invalid
  else
    match pow x y with
    | infinite _ => .error .overflow
    | z => .ok z

/-- **What the power of finite numbers can end in**, and when. -/
theorem powerOver_cases (pow : Binary64 → Binary64 → Binary64) (hx : x.isFinite = true) (hy : y.isFinite = true) :
    Powerless x y ∧ powerOver pow x y = .error .invalid ∨
    ¬ Powerless x y ∧ (∃ negative, pow x y = infinite negative) ∧ powerOver pow x y = .error .overflow ∨
    ¬ Powerless x y ∧ (∀ negative, pow x y ≠ infinite negative) ∧ powerOver pow x y = .ok (pow x y) := by
  have htest : (x.lt (zero false) && !y.isIntegral || x.isZero && y.lt (zero false)) = true ↔ Powerless x y := by
    rw [Bool.or_eq_true, Bool.and_eq_true, Bool.and_eq_true, Bool.not_eq_true', ← Bool.not_eq_true, lt_zero_iff hx,
      lt_zero_iff hy, isIntegral_iff hy, isZero_iff hx, Powerless]
  rw [powerOver, hx, hy, Bool.and_true, Bool.not_true, if_neg Bool.false_ne_true]
  by_cases h : Powerless x y
  · rw [if_pos (htest.2 h)]
    exact .inl ⟨h, rfl⟩
  · rw [if_neg fun ht => h (htest.1 ht)]
    cases pow x y with
    | nan => exact .inr (.inr ⟨h, nofun, rfl⟩)
    | infinite negative => exact .inr (.inl ⟨h, ⟨negative, rfl⟩, rfl⟩)
    | finite => exact .inr (.inr ⟨h, nofun, rfl⟩)

theorem powerOver_of_not_finite (pow : Binary64 → Binary64 → Binary64)
    (h : (x.isFinite && y.isFinite) = false) : powerOver pow x y = .ok (pow x y) := by
  rw [powerOver, h, Bool.not_false, if_pos rfl]

end Checked

namespace Guarded

/-- A power function of the platform with its traps rescued: the sign of an infinity is that of the base at odd
exponents, and what is invalid but the power of a zero has no value. -/
def powerOver (platform : Binary64 → Binary64 → Except Trap Binary64) (x y : Binary64) : Except Trap Binary64 :=
  Trap.rescue (platform x y) fun
    | .overflow => some (infinite (x.lt (zero false) && y.leavesOne))
    | .invalid =>
      if x.isZero && y.lt (zero false) then
        some (if y.leavesOne then (infinite false).withSign x.isNegative else infinite false)
      else some nan
    | _ => none

/-- The guarded power of the calculator is one over the power of the machine. -/
theorem power_eq_powerOver : power = powerOver Checked.power := by
  funext x y
  rw [power, powerOver]
  congr 1
  funext trap
  cases trap <;> simp only [leavesOne_eq]

/-- An invalid power is no number, but that of a zero is infinite. -/
theorem powerOver_of_invalid (hpow : IsPower pow) (hx : x.isFinite = true) (hy : y.isFinite = true)
    (h : Powerless x y) (htrap : Checked.powerOver pow x y = .error .invalid) :
    powerOver (Checked.powerOver pow) x y = .ok (pow x y) := by
  rw [powerOver, htrap, leavesOne_eq]
  rcases h with ⟨hneg, hfraction⟩ | ⟨hzero, hneg⟩
  · have hnonzero := (isZero_eq_false_iff hx).2 hneg.ne
    rw [hpow.special (.negative_fraction hx hneg hy hfraction)]
    simp only [Trap.rescue, hnonzero, Bool.false_and, Bool.false_eq_true, if_false]
  · have hiszero := (isZero_iff hx).2 hzero
    have hbelow := (lt_zero_iff hy).2 hneg
    have hnegative : y.Negative := .inl ⟨hy, hneg⟩
    simp only [Trap.rescue, hiszero, hbelow, Bool.and_self, if_true]
    rw [eq_zero_of_isZero hiszero]
    by_cases hodd : y.OddInteger
    · rw [(isOdd_iff y).2 hodd, hpow.special (.zero_odd_negative _ hnegative hodd)]
      rfl
    · rw [isOdd_eq_false hodd, hpow.special (.zero_negative _ hnegative hodd)]
      rfl

/-- A power of finite numbers that is infinite, but not for lack of a value, has a base that is not zero. -/
theorem isZero_eq_false_of_infinite (hpow : IsPower pow) (hx : x.isFinite = true) (hy : y.isFinite = true)
    (h : ¬ Powerless x y) {negative : Bool} (hinfinite : pow x y = infinite negative) : x.isZero = false := by
  cases hzero : x.isZero with
  | false => rfl
  | true =>
    -- to the exponents that are left a zero has the power one or zero
    have hvalue : x.value = 0 := (isZero_iff hx).1 hzero
    rcases lt_trichotomy y.value 0 with hneg | hyzero | hpos
    · exact absurd (.inr ⟨hvalue, hneg⟩) h
    · rw [eq_zero_of_isZero ((isZero_iff hy).2 hyzero), hpow.special (.exponent_zero _ _), one_eq] at hinfinite
      cases hinfinite
    · have hpositive : y.Positive := .inl ⟨hy, hpos⟩
      rw [eq_zero_of_isZero hzero] at hinfinite
      by_cases hodd : y.OddInteger
      · rw [hpow.special (.zero_odd_positive _ hpositive hodd)] at hinfinite
        cases hinfinite
      · rw [hpow.special (.zero_positive _ hpositive hodd)] at hinfinite
        cases hinfinite

theorem negative_of_infinite (hpow : IsPower pow) (hx : x.isFinite = true) (hy : y.isFinite = true)
    {negative : Bool} (hinfinite : pow x y = infinite negative) :
    negative = true ↔ x.isNegative = true ∧ y.OddInteger := by
  have hsign := hpow.sign hx hy (by rw [hinfinite]; nofun)
  rwa [hinfinite] at hsign

/-- **A power out of range** has the sign of the base at odd exponents. -/
theorem powerOver_of_overflow (hpow : IsPower pow) (hx : x.isFinite = true) (hy : y.isFinite = true)
    (h : ¬ Powerless x y) {negative : Bool} (hinfinite : pow x y = infinite negative)
    (htrap : Checked.powerOver pow x y = .error .overflow) :
    powerOver (Checked.powerOver pow) x y = .ok (pow x y) := by
  have hzero := isZero_eq_false_of_infinite hpow hx hy h hinfinite
  have hsign : (x.isNegative && y.isOdd) = negative := by
    rw [Bool.eq_iff_iff, Bool.and_eq_true, isOdd_iff]
    exact (negative_of_infinite hpow hx hy hinfinite).symm
  rw [powerOver, htrap, leavesOne_eq, lt_zero_eq_isNegative hx hzero, hsign, hinfinite]
  rfl

/-- **A guarded power function is the function itself**, and nothing traps any more. -/
theorem powerOver_eq (hpow : IsPower pow) (x y : Binary64) : powerOver (Checked.powerOver pow) x y = .ok (pow x y) := by
  by_cases hfinite : (x.isFinite && y.isFinite) = true
  · obtain ⟨hx, hy⟩ := Bool.and_eq_true_iff.1 hfinite
    rcases Checked.powerOver_cases pow hx hy with ⟨h, htrap⟩ | ⟨h, ⟨negative, hinfinite⟩, htrap⟩ | ⟨-, -, hok⟩
    · exact powerOver_of_invalid hpow hx hy h htrap
    · exact powerOver_of_overflow hpow hx hy h hinfinite htrap
    · rw [powerOver, hok, rescue_ok]
  · rw [powerOver, Checked.powerOver_of_not_finite pow (Bool.eq_false_of_not_eq_true hfinite), rescue_ok]

end Guarded

namespace Binary64

/-- **Division and powers are completed to what the standards say.**  The guarded division is that of IEEE 754.  The
calculator's power, which is guarded like this, is one by the standard of C, and whatever the platform's power function
is, if it is one too, the guarded function is the same without its traps.  An infinity in place of a trap is negative
for a base with a sign, be it a zero, and an odd exponent, however large that is. -/
theorem arithmetic_completed (hpow : IsPower pow) (x y : Binary64) :
    Guarded.divide x y = .ok (x.div y) ∧ (∀ z, IsQuotient x y z ↔ z = x.div y) ∧
    Guarded.power x y = .ok (x.pow y) ∧ Guarded.power = Guarded.powerOver Checked.power ∧ IsPower Binary64.pow ∧
    Guarded.powerOver (Checked.powerOver pow) x y = .ok (pow x y) ∧
    (∀ trap negative, Checked.powerOver pow x y = .error trap →
      Guarded.powerOver (Checked.powerOver pow) x y = .ok (infinite negative) →
      (negative = true ↔ x.isNegative = true ∧ y.OddInteger)) := by
  refine ⟨Guarded.divide_eq x y, fun z => isQuotient_iff, Guarded.power_eq x y, Guarded.power_eq_powerOver, isPower_pow,
    Guarded.powerOver_eq hpow x y, ?_⟩
  intro trap negative htrap hresult
  rw [Guarded.powerOver_eq hpow x y, Except.ok.injEq] at hresult
  by_cases hfinite : (x.isFinite && y.isFinite) = true
  · obtain ⟨hx, hy⟩ := Bool.and_eq_true_iff.1 hfinite
    exact Guarded.negative_of_infinite hpow hx hy hresult
  · rw [Checked.powerOver_of_not_finite pow (Bool.eq_false_of_not_eq_true hfinite)] at htrap
    cases htrap

/-- The minus zero has no power to the opposite of the largest odd double, and the infinity in its place is negative. -/
theorem arithmetic_completed_minus_zero :
    let y := finite true ⟨0x433FFFFFFFFFFFFF, by decide⟩
    IsPower Binary64.pow ∧ Checked.powerOver Binary64.pow (zero true) y = .error .invalid ∧
      Guarded.powerOver (Checked.powerOver Binary64.pow) (zero true) y = .ok (infinite true) ∧ y.OddInteger := by
  intro y
  have hodd : y.OddInteger := (isOdd_iff y).1 (by decide +kernel)
  have hneg : y.value < 0 := (lt_zero_iff rfl).1 (by decide)
  have hpowerless : Powerless (zero true) y := .inr ⟨(isZero_iff rfl).1 (isZero_zero true), hneg⟩
  obtain ⟨-, -, -, -, -, hresult, -⟩ := arithmetic_completed isPower_pow (zero true) y
  rw [isPower_pow.special (.zero_odd_negative true (.inl ⟨rfl, hneg⟩) hodd)] at hresult
  rcases Checked.powerOver_cases Binary64.pow (x := zero true) (y := y) rfl rfl with ⟨-, htrap⟩ | ⟨h, -⟩ | ⟨h, -⟩
  · exact ⟨isPower_pow, htrap, hresult, hodd⟩
  · exact absurd hpowerless h
  · exact absurd hpowerless h

end Binary64
end Calculator
