import Calculator.Proofs.Binary64.Nearest
import Calculator.Proofs.Binary64.Whole
import Mathlib.Algebra.Order.Group.Abs
import Mathlib.Data.Rat.Cast.Order
/-!
# The distance to the nearest double

The rank that a number rounds to is the one whose size is nearest to it, and it is even if another size is as near
(`RoundsTo.dist_lt_or_tie`).  So the double at that rank is nearest among all finite doubles, those below zero included
(`Binary64.nearest_of_roundsTo`).  The numbers that are too large for that begin half a step behind the last finite
double (`RoundsTo.rankLimit_le_iff`), and those that vanish end half a step behind zero (`RoundsTo.eq_zero_iff`).
-/
namespace Calculator

variable {q : ℚ} {rank other : Nat}

/-! ## Ranks -/

theorem exists_roundsTo (h : 0 ≤ q) : ∃ rank, RoundsTo q rank := by
  refine ⟨nearestRank q.num.toNat q.den, ?_⟩
  have hround := roundsTo_nearestRank q.num.toNat q.den_pos
  have hnum : ((q.num.toNat : Nat) : ℚ) = q.num := by
    exact_mod_cast congrArg (Int.cast (R := ℚ)) (Int.toNat_of_nonneg (Rat.num_nonneg.2 h))
  rwa [hnum, Rat.num_div_den] at hround

namespace RoundsTo

/-- Twice a number that rounds to a rank lies between the middles on both sides of it, and on one of them only if the
rank is even. -/
theorem bounds (h : RoundsTo q rank) : (0 < rank → (middle (rank - 1) : ℚ) ≤ 2 * q) ∧ 2 * q ≤ middle rank ∧
    (rank % 2 = 0 ∨ (0 < rank → (middle (rank - 1) : ℚ) < 2 * q) ∧ 2 * q < middle rank) := by
  refine ⟨fun hpos => ?_, ?_, ?_⟩
  · rcases h.above hpos with habove | ⟨habove, -⟩
    · exact habove.le
    · exact habove.le
  · rcases h.below with hbelow | ⟨hbelow, -⟩
    · exact hbelow.le
    · exact hbelow.le
  · by_cases heven : rank % 2 = 0
    · exact .inl heven
    · exact .inr ⟨fun hpos => (h.above hpos).resolve_right fun htie => heven htie.2,
        h.below.resolve_right fun htie => heven htie.2⟩

/-- **The size of the rank is nearest**, and if the size of another rank is as near the rank is even. -/
theorem dist_lt_or_tie (h : RoundsTo q rank) (hne : other ≠ rank) :
    |(sizeAt rank : ℚ) - q| < |sizeAt other - q| ∨ |(sizeAt rank : ℚ) - q| = |sizeAt other - q| ∧ rank % 2 = 0 := by
  obtain ⟨habove, hbelow, hparity⟩ := h.bounds
  rcases Nat.lt_or_gt_of_ne hne with hlt | hgt
  · -- the other size is at most that of the rank before
    have hpos : 0 < rank := by omega
    have hbefore : (sizeAt other : ℚ) ≤ sizeAt (rank - 1) := Nat.cast_le.2 (sizeAt_strictMono.monotone (by omega))
    have hstep : (sizeAt (rank - 1) : ℚ) < sizeAt rank := Nat.cast_lt.2 (sizeAt_strictMono (by omega))
    have hmiddle : (middle (rank - 1) : ℚ) = sizeAt (rank - 1) + sizeAt rank := by
      rw [middle, Nat.sub_add_cancel hpos, Nat.cast_add]
    have hcases := habove hpos
    rw [abs_of_nonpos (by linarith : (sizeAt other : ℚ) - q ≤ 0)]
    rcases hparity with heven | ⟨hstrict, -⟩
    · have hdist : |(sizeAt rank : ℚ) - q| ≤ -(sizeAt other - q) := abs_le'.2 ⟨by linarith, by linarith⟩
      exact hdist.lt_or_eq.imp id fun htie => ⟨htie, heven⟩
    · have := hstrict hpos
      exact .inl (abs_lt.2 ⟨by linarith, by linarith⟩)
  · -- the other size is at least that of the next rank
    have hnext : (sizeAt (rank + 1) : ℚ) ≤ sizeAt other := Nat.cast_le.2 (sizeAt_strictMono.monotone hgt)
    have hstep : (sizeAt rank : ℚ) < sizeAt (rank + 1) := Nat.cast_lt.2 (sizeAt_strictMono (Nat.lt_succ_self rank))
    have hmiddle : (middle rank : ℚ) = sizeAt rank + sizeAt (rank + 1) := by rw [middle, Nat.cast_add]
    rw [abs_of_nonneg (by linarith : (0 : ℚ) ≤ sizeAt other - q)]
    rcases hparity with heven | ⟨-, hstrict⟩
    · have hdist : |(sizeAt rank : ℚ) - q| ≤ sizeAt other - q := abs_le'.2 ⟨by linarith, by linarith⟩
      exact hdist.lt_or_eq.imp id fun htie => ⟨htie, heven⟩
    · exact .inl (abs_lt.2 ⟨by linarith, by linarith⟩)

/-- A number rounds to a rank or to one before it if it lies before the middle behind that rank. -/
theorem le_iff (h : RoundsTo q rank) (other : Nat) :
    rank ≤ other ↔ 2 * q < middle other ∨ 2 * q = middle other ∧ other % 2 = 0 := by
  constructor
  · intro hle
    rcases Nat.lt_or_eq_of_le hle with hlt | rfl
    · have hmiddle : (middle rank : ℚ) < middle other := Nat.cast_lt.2 (middle_strictMono hlt)
      exact .inl (lt_of_le_of_lt h.bounds.2.1 hmiddle)
    · exact h.below
  · intro hq
    by_contra hgt
    have hle : (middle other : ℚ) ≤ middle (rank - 1) := Nat.cast_le.2 (middle_strictMono.monotone (by omega))
    rcases h.above (by omega) with habove | ⟨habove, heven⟩
    · rcases hq with hq | ⟨hq, -⟩ <;> linarith
    · rcases hq with hq | ⟨hq, hother⟩
      · linarith
      · -- both are the one middle, but only one of the ranks beside it is even
        have hmiddle : middle other = middle (rank - 1) := by rw [← Nat.cast_inj (R := ℚ), ← hq, habove]
        have := middle_strictMono.injective hmiddle
        omega

theorem eq_zero_iff (h : RoundsTo q rank) : rank = 0 ↔ 2 * q ≤ 1 := by
  have hmiddle : ((middle 0 : Nat) : ℚ) = 1 := Nat.cast_one
  rw [← Nat.le_zero, h.le_iff, hmiddle, le_iff_lt_or_eq, and_iff_left (Nat.zero_mod 2)]

theorem rankLimit_le_iff (h : RoundsTo q rank) : rankLimit ≤ rank ↔ (middle (rankLimit - 1) : ℚ) ≤ 2 * q := by
  have hodd : ¬ (rankLimit - 1) % 2 = 0 := by decide
  have hbefore : rank ≤ rankLimit - 1 ↔ 2 * q < middle (rankLimit - 1) := by
    rw [h.le_iff, or_iff_left fun htie => hodd htie.2]
  rw [← Nat.not_lt, ← Rat.not_lt, ← hbefore, Nat.le_sub_one_iff_lt (by decide)]

end RoundsTo

/-- The middle behind the last finite double is half a step before the next power of two. -/
theorem middle_last : middle (rankLimit - 1) + 2 * 2 ^ 970 * quantaPerUnit = 2 * 2 ^ 1024 * quantaPerUnit := by
  decide +kernel

/-! ## Doubles -/

namespace Binary64

/-- The value of a finite double. -/
def value (x : Binary64) : ℚ := x.signedQuanta / quantaPerUnit

/-- The whole number of which the size of a finite double is a multiple by a power of two: what the spacing at its rank
goes into it. -/
def significand : Binary64 → Nat
  | finite _ rank => rank - doublings rank * binade
  | _ => 0

/-- A finite double that no other is nearer to a number than.  If one of another value is as near, its significand is
even. -/
structure Nearest (x : Binary64) (q : ℚ) : Prop where
  isFinite : x.isFinite = true
  dist_le : ∀ y : Binary64, y.isFinite = true → |x.value - q| ≤ |y.value - q|
  even : ∀ y : Binary64, y.isFinite = true → |y.value - q| = |x.value - q| → y.value ≠ x.value → x.significand % 2 = 0

theorem significand_mod_two (negative : Bool) (rank : Fin rankLimit) :
    (finite negative rank).significand % 2 = rank % 2 := by
  rw [significand]
  unfold doublings binade
  omega

theorem signedQuanta_positive (rank : Fin rankLimit) : ((finite false rank).signedQuanta : ℚ) = sizeAt rank := by
  rw [signedQuanta, isNegative, if_neg (by decide), quanta, Int.cast_natCast]

theorem signedQuanta_negative (rank : Fin rankLimit) : ((finite true rank).signedQuanta : ℚ) = -sizeAt rank := by
  rw [signedQuanta, isNegative, if_pos rfl, quanta, Int.cast_neg, Int.cast_natCast]

theorem dist_eq (x : Binary64) (q : ℚ) : |x.value - q| = |(x.signedQuanta : ℚ) - q * quantaPerUnit| / quantaPerUnit := by
  have hunit : (0 : ℚ) < quantaPerUnit := Nat.cast_pos.2 quantaPerUnit_pos
  rw [value, ← abs_of_pos hunit, ← abs_div, abs_of_pos hunit, sub_div, mul_div_cancel_right₀ q hunit.ne']

/-- Doubles below zero are no nearer to a number that is not. -/
theorem dist_lt_or_tie (hq : 0 ≤ q) (h : RoundsTo q rank) (y : Binary64) (hy : y.isFinite = true)
    (hne : (y.signedQuanta : ℚ) ≠ sizeAt rank) : |(sizeAt rank : ℚ) - q| < |y.signedQuanta - q| ∨
      |(sizeAt rank : ℚ) - q| = |y.signedQuanta - q| ∧ rank % 2 = 0 := by
  obtain ⟨negative, other, rfl⟩ : ∃ negative other, y = finite negative other := by
    cases y with
    | finite negative other => exact ⟨negative, other, rfl⟩
    | nan | infinite => cases hy
  cases negative with
  | false =>
    rw [signedQuanta_positive] at hne ⊢
    exact h.dist_lt_or_tie fun heq => hne (by rw [heq])
  | true =>
    rw [signedQuanta_negative] at hne ⊢
    have hsize : (0 : ℚ) ≤ sizeAt other := Nat.cast_nonneg _
    -- zero is at least as near as what lies beyond it
    have hbeyond : |-(sizeAt other : ℚ) - q| = sizeAt other + q := by
      rw [abs_of_nonpos (by linarith), neg_sub, sub_neg_eq_add, add_comm]
    have hzero : |(sizeAt 0 : ℚ) - q| = q := by rw [sizeAt_zero, Nat.cast_zero, zero_sub, abs_neg, abs_of_nonneg hq]
    by_cases hrank : rank = 0
    · subst hrank
      have hpos : (0 : ℚ) < sizeAt other := by
        rw [sizeAt_zero, Nat.cast_zero] at hne
        exact lt_of_le_of_ne hsize fun heq => hne (by rw [← heq, neg_zero])
      rw [hbeyond, hzero]
      exact .inl (by linarith)
    · rcases h.dist_lt_or_tie (Ne.symm hrank) with hlt | ⟨htie, heven⟩
      · rw [hzero] at hlt
        rw [hbeyond]
        exact .inl (by linarith)
      · rw [hzero] at htie
        rw [hbeyond, htie]
        rcases hsize.lt_or_eq with hpos | hnone
        · exact .inl (by linarith)
        · exact .inr ⟨by linarith, heven⟩

/-- **The double at the rank that a number rounds to is nearest to it.** -/
theorem nearest_of_roundsTo {rank : Fin rankLimit} (hq : 0 ≤ q) (h : RoundsTo (q * quantaPerUnit) rank) :
    (finite false rank).Nearest q := by
  have hunit : (0 : ℚ) < quantaPerUnit := Nat.cast_pos.2 quantaPerUnit_pos
  have hscaled : 0 ≤ q * quantaPerUnit := mul_nonneg hq hunit.le
  refine ⟨rfl, fun y hy => ?_, fun y hy htie hne => ?_⟩
  · rw [dist_eq, dist_eq, signedQuanta_positive]
    refine div_le_div_of_nonneg_right ?_ hunit.le
    by_cases heq : (y.signedQuanta : ℚ) = sizeAt rank
    · rw [heq]
    · rcases dist_lt_or_tie hscaled h y hy heq with hlt | ⟨htie, -⟩
      · exact hlt.le
      · exact htie.le
  · rw [dist_eq, dist_eq, div_left_inj' hunit.ne', signedQuanta_positive] at htie
    have hvalue : (y.signedQuanta : ℚ) ≠ sizeAt rank := by
      rw [← signedQuanta_positive]
      exact fun heq => hne (by rw [value, value, heq])
    rcases dist_lt_or_tie hscaled h y hy hvalue with hlt | ⟨-, heven⟩
    · exact absurd htie hlt.ne'
    · rw [significand_mod_two, heven]

end Binary64
end Calculator
