import Calculator.Proofs.Binary64.Rounded
import Calculator.Proofs.Binary64.Traps
import Mathlib.Data.Rat.Floor
/-!
# Remainders are exact

The remainder of two sizes is a size (`exists_sizeAt_eq_mod`): it is a multiple of the smaller of the two spacings, and
it takes fewer than `2 ^ 53` steps of it, because it is below the divisor and not above the dividend.  So a remainder is
never rounded, however large the quotient is (`rem_exact`).
-/
namespace Calculator

/-- A number without its fraction, that is, rounded toward zero. -/
def truncate (q : ℚ) : ℤ := if 0 ≤ q then ⌊q⌋ else ⌈q⌉

theorem truncate_of_nonneg {q : ℚ} (h : 0 ≤ q) : truncate q = ⌊q⌋ := if_pos h

theorem truncate_neg (q : ℚ) : truncate (-q) = -truncate q := by
  rcases lt_trichotomy q 0 with hneg | rfl | hpos
  · rw [truncate, truncate, if_pos (by linarith), if_neg (by linarith), Int.floor_neg]
  · rw [neg_zero, truncate, if_pos le_rfl, Int.floor_zero, Int.neg_zero]
  · rw [truncate, truncate, if_neg (by linarith), if_pos hpos.le, Int.ceil_neg]

theorem truncate_div (m n : Nat) : truncate (m / n) = (m / n : Nat) := by
  rw [truncate_of_nonneg (div_nonneg (Nat.cast_nonneg _) (Nat.cast_nonneg _)), Rat.floor_natCast_div_natCast,
    Int.natCast_div]

/-! ## Sizes -/

/-- **The remainder of two sizes is a size.** -/
theorem exists_sizeAt_eq_mod (a : Nat) {b : Nat} (hb : 0 < b) : ∃ rank, sizeAt rank = sizeAt a % sizeAt b := by
  obtain ⟨d, m, ha, hm⟩ := exists_significand a
  obtain ⟨e, n, he, hn⟩ := exists_significand b
  have hsize := sizeAt_pos hb
  rw [he, hn.sizeAt_eq] at hsize
  rw [ha, he, hm.sizeAt_eq, hn.sizeAt_eq]
  rcases Nat.le_total d e with hde | hed
  · -- in steps of the dividend it is not above the dividend
    obtain ⟨k, rfl⟩ := Nat.exists_eq_add_of_le hde
    rw [Nat.add_comm d k, Nat.pow_add, ← Nat.mul_assoc, Nat.mul_mod_mul_right]
    exact exists_sizeAt_eq d (Nat.lt_of_le_of_lt (Nat.mod_le _ _) hm.1)
  · -- in steps of the divisor it is below the divisor
    obtain ⟨k, rfl⟩ := Nat.exists_eq_add_of_le hed
    rw [Nat.add_comm e k, Nat.pow_add, ← Nat.mul_assoc, Nat.mul_mod_mul_right]
    exact exists_sizeAt_eq e (Nat.lt_trans (Nat.mod_lt _ (Nat.pos_of_mul_pos_right hsize)) hn.1)

namespace Binary64

variable {a b : Bool} {r s : Fin rankLimit}

/-- A remainder of finite numbers has the sign of the dividend and the remainder of the sizes. -/
theorem exists_rem_eq (a : Bool) (r : Fin rankLimit) (hs : 0 < s.val) :
    ∃ rank : Fin rankLimit, sizeAt rank = sizeAt r % sizeAt s ∧ ∀ b, (finite a r).rem (finite b s) = finite a rank := by
  have hsize := sizeAt_pos hs
  obtain ⟨rank, hrank⟩ := exists_sizeAt_eq_mod r hs
  have hnearest : nearestRank (sizeAt r % sizeAt s) 1 = rank := by
    rw [← hrank]
    exact sizeAt_strictMono.injective (sizeAt_nearestRank_sizeAt rank)
  have hlt : rank < s := sizeAt_strictMono.lt_iff_lt.1 (hrank ▸ Nat.mod_lt _ hsize)
  refine ⟨⟨rank, Nat.lt_trans hlt s.isLt⟩, hrank, fun b => ?_⟩
  have hzero : (finite b s).isZero = false := beq_eq_false_iff_ne.2 hs.ne'
  rw [rem, hzero, if_neg Bool.false_ne_true, ofQuanta, ofQuotient]
  rw [quanta, quanta, hnearest, atRank, dif_pos (Nat.lt_trans hlt s.isLt)]

theorem truncate_signed (negative : Bool) (m n : Nat) :
    (truncate (signed negative (m / n)) : ℚ) = signed negative (m / n : Nat) := by
  cases negative
  · exact congrArg Int.cast (truncate_div m n)
  · exact (congrArg Int.cast (truncate_neg _)).trans (by rw [truncate_div, Int.cast_neg]; rfl)

/-- The value of a remainder, from the remainder of the sizes. -/
theorem value_rem {rank : Fin rankLimit} (h : sizeAt rank = sizeAt r % sizeAt s) :
    (finite a rank).value =
      (finite a r).value - (finite b s).value * truncate ((finite a r).value / (finite b s).value) := by
  have hmod : ((sizeAt r % sizeAt s : Nat) : ℚ) = sizeAt r - sizeAt s * (sizeAt r / sizeAt s : Nat) := by
    rw [eq_sub_iff_add_eq, ← Nat.cast_mul, ← Nat.cast_add, Nat.mod_add_div]
  have hsign : (b != (a != b)) = a := by cases a <;> cases b <;> rfl
  simp only [value_eq, isNegative, quanta]
  rw [signed_div_signed, div_div_div_cancel_right₀ cast_quantaPerUnit_ne_zero, truncate_signed, signed_mul_signed,
    hsign, ← signed_sub, h, hmod, sub_div, mul_div_right_comm]

/-- **The remainder is exact.**  There is none of an infinity or a NaN, or by them or a zero.  Otherwise it is what is
left of the dividend after taking away the divisor as often as the truncated quotient says, computed without any
rounding: below the divisor in magnitude, with the sign of the dividend, whatever that of the divisor is, and itself
left when it is divided again. -/
theorem rem_exact (x y : Binary64) :
    Guarded.remainder x y = .ok (x.rem y) ∧
    (x.rem y = nan ↔ x.isFinite = false ∨ y.isFinite = false ∨ y.isZero = true) ∧
    (x.rem y ≠ nan → (x.rem y).isFinite = true ∧
      (x.rem y).value = x.value - y.value * truncate (x.value / y.value) ∧
      |(x.rem y).value| < |y.value| ∧ (x.rem y).isNegative = x.isNegative) ∧
    x.rem y.neg = x.rem y ∧ (x.rem y).rem y = x.rem y := by
  refine ⟨Guarded.remainder_eq x y, ?_⟩
  cases x with
  | nan => exact ⟨iff_of_true rfl (.inl rfl), fun h => absurd rfl h, rfl, rfl⟩
  | infinite => exact ⟨iff_of_true rfl (.inl rfl), fun h => absurd rfl h, rfl, rfl⟩
  | finite a r =>
    cases y with
    | nan => exact ⟨iff_of_true rfl (.inr (.inl rfl)), fun h => absurd rfl h, rfl, rfl⟩
    | infinite => exact ⟨iff_of_true rfl (.inr (.inl rfl)), fun h => absurd rfl h, rfl, rfl⟩
    | finite b s =>
      rcases Nat.eq_zero_or_pos s.val with hs | hs
      · -- a zero
        have hzero : (finite b s).isZero = true := beq_iff_eq.2 hs
        have hnan : ∀ b, (finite a r).rem (finite b s) = nan := fun b => if_pos hzero
        rw [neg, hnan, hnan]
        exact ⟨iff_of_true rfl (.inr (.inr hzero)), fun h => absurd rfl h, rfl, rfl⟩
      · obtain ⟨rank, hrank, hrem⟩ := exists_rem_eq a r hs
        have hless : sizeAt rank < sizeAt s := hrank ▸ Nat.mod_lt _ (sizeAt_pos hs)
        have hagain : (finite a rank).rem (finite b s) = finite a rank := by
          obtain ⟨again, hsize, hrem⟩ := exists_rem_eq a rank hs
          rw [Nat.mod_eq_of_lt hless] at hsize
          rw [hrem, Fin.ext (sizeAt_strictMono.injective hsize)]
        have hnonzero : ¬ (finite b s).isZero = true := fun hzero => hs.ne' (eq_of_beq hzero)
        rw [neg, hrem, hrem, hagain]
        refine ⟨iff_of_false (fun h => by cases h) ?_, fun _ => ⟨rfl, value_rem hrank, ?_, rfl⟩, rfl, rfl⟩
        · rintro (hx | hy | hzero)
          · cases hx
          · cases hy
          · exact hnonzero hzero
        · rw [abs_value, abs_value]
          exact div_lt_div_of_pos_right (Nat.cast_lt.2 hless) cast_quantaPerUnit_pos

end Binary64
end Calculator
