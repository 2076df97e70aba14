import Calculator.Decimal.Basic
import Calculator.Proofs.Binary64.Nearest
import Mathlib.Algebra.Order.Field.Power
/-!
# The values of decimals

A decimal is read as the double at the rank that its value rounds to, and the two bounds on the exponent make no
difference (`Decimal.toBinary64_of_roundsTo`).  So decimals of one value are read as one double.
-/
namespace Calculator
namespace Decimal

def value (d : Decimal) : ℚ := d.coefficient * 10 ^ d.exponent

/-- The value in quanta. -/
def quanta (d : Decimal) : ℚ := d.value * quantaPerUnit

theorem value_ofNat (c up : Nat) : (⟨c, Int.ofNat up⟩ : Decimal).value = (c * 10 ^ up : Nat) := by
  rw [value, Int.ofNat_eq_natCast, zpow_natCast]
  push_cast
  rfl

theorem value_negSucc (c k : Nat) : (⟨c, Int.negSucc k⟩ : Decimal).value = c / (10 ^ (k + 1) : Nat) := by
  rw [value, zpow_negSucc, div_eq_mul_inv]
  push_cast
  rfl

/-! ## The bounds on the exponent -/

theorem sizeAt_rankLimit_le : sizeAt rankLimit ≤ 10 ^ overflowExponent * quantaPerUnit := by decide +kernel

theorem two_mul_quantaPerUnit_le : 2 * quantaPerUnit ≤ 10 ^ underflowExponent := by decide +kernel

variable {rank c k up : Nat}

theorem rankLimit_le_of_overflow (hc : c ≠ 0) (hup : overflowExponent < up)
    (h : RoundsTo (⟨c, Int.ofNat up⟩ : Decimal).quanta rank) : rankLimit ≤ rank := by
  refine h.le_of_sizeAt_le ?_
  rw [quanta, value_ofNat]
  have hpow : 10 ^ overflowExponent ≤ c * 10 ^ up :=
    calc 10 ^ overflowExponent ≤ 10 ^ up := Nat.pow_le_pow_right (by decide) hup.le
      _ ≤ c * 10 ^ up := Nat.le_mul_of_pos_left _ (Nat.pos_of_ne_zero hc)
  exact_mod_cast sizeAt_rankLimit_le.trans (Nat.mul_le_mul_right quantaPerUnit hpow)

theorem eq_zero_of_underflow (hk : c.log2 + underflowExponent < k + 1)
    (h : RoundsTo (⟨c, Int.negSucc k⟩ : Decimal).quanta rank) : rank = 0 := by
  have hc : c < 10 ^ (c.log2 + 1) :=
    calc c < 2 ^ (c.log2 + 1) := Nat.lt_log2_self
      _ ≤ 10 ^ (c.log2 + 1) := Nat.pow_le_pow_left (by decide) _
  have hsmall : 2 * (c * quantaPerUnit) < 10 ^ (k + 1) :=
    calc 2 * (c * quantaPerUnit) = c * (2 * quantaPerUnit) := Nat.mul_left_comm _ _ _
      _ ≤ c * 10 ^ underflowExponent := Nat.mul_le_mul_left _ two_mul_quantaPerUnit_le
      _ < 10 ^ (c.log2 + 1) * 10 ^ underflowExponent := Nat.mul_lt_mul_of_pos_right hc (Nat.pow_pos (by decide))
      _ = 10 ^ (c.log2 + 1 + underflowExponent) := (Nat.pow_add _ _ _).symm
      _ ≤ 10 ^ (k + 1) := Nat.pow_le_pow_right (by decide) (by omega)
  have hzero : RoundsTo (⟨c, Int.negSucc k⟩ : Decimal).quanta 0 := by
    refine ⟨fun hpos => absurd hpos (Nat.lt_irrefl 0), .inl ?_⟩
    have hpow : (0 : ℚ) < (10 ^ (k + 1) : Nat) := Nat.cast_pos.2 (Nat.pow_pos (by decide))
    rw [quanta, value_negSucc, div_mul_eq_mul_div, ← mul_div_assoc, div_lt_iff₀ hpow]
    have hmiddle : middle 0 = 1 := rfl
    rw [hmiddle, Nat.cast_one, one_mul]
    exact_mod_cast hsmall
  exact h.unique hzero

/-! ## Reading -/

theorem roundsTo_zero {d : Decimal} (h : d.coefficient = 0) : RoundsTo d.quanta 0 := by
  have hquanta : d.quanta = (sizeAt 0 : Nat) := by
    rw [quanta, value, h, sizeAt_zero, Nat.cast_zero, zero_mul, zero_mul]
  rw [hquanta]
  exact .size 0

theorem coefficient_ne_zero {d : Decimal} (h : RoundsTo d.quanta rank) (hrank : rank ≠ 0) : d.coefficient ≠ 0 :=
  fun hzero => hrank (h.unique (roundsTo_zero hzero))

/-- **A decimal is read as the double that its value rounds to.** -/
theorem toBinary64_of_roundsTo {d : Decimal} (h : RoundsTo d.quanta rank) (negative : Bool) :
    d.toBinary64 negative = .atRank negative rank := by
  obtain ⟨c, exponent⟩ := d
  rw [toBinary64]
  by_cases hc : c = 0
  · rw [if_pos hc, h.unique (roundsTo_zero hc)]
    rfl
  · rw [if_neg hc]
    cases exponent with
    | ofNat up =>
      simp only
      split
      · rename_i hup
        rw [Binary64.atRank, dif_neg (Nat.not_lt.2 (rankLimit_le_of_overflow hc hup h))]
      · refine Binary64.ofQuotient_of_roundsTo Nat.one_pos ?_ negative
        rw [quanta, value_ofNat] at h
        rw [Nat.cast_one, div_one, Nat.pow_eq]
        exact_mod_cast h
    | negSucc k =>
      simp only
      split
      · rename_i hk
        rw [eq_zero_of_underflow hk h]
        rfl
      · refine Binary64.ofQuotient_of_roundsTo (Nat.pow_pos (by decide)) ?_ negative
        rw [quanta, value_negSucc, div_mul_eq_mul_div] at h
        exact_mod_cast h

end Decimal
end Calculator
