import Calculator.Binary64.Basic
/-!
# The interchange format

A double as 64 bits: the sign bit on top, and below it the rank of a finite double, `rankLimit` for an infinity and
anything greater for a NaN.
-/
namespace Calculator
namespace Binary64

/-- The weight of the sign bit, `2 ^ 63`. -/
def signBit : Nat := 0x8000000000000000

/-- The bits of a double.  A NaN gets the quiet one without sign and payload. -/
def toBits : Binary64 → UInt64
  | nan => 0x7FF8000000000000
  | infinite negative => UInt64.ofNat (negative.toNat * signBit + rankLimit)
  | finite negative rank => UInt64.ofNat (negative.toNat * signBit + rank)

/-- The double that some bits stand for. -/
def ofBits (bits : UInt64) : Binary64 :=
  let negative := decide (signBit ≤ bits.toNat)
  let rank := bits.toNat % signBit
  if h : rank < rankLimit then .finite negative ⟨rank, h⟩
  else if rank = rankLimit then .infinite negative
  else .nan

/-- Every double is what its bits stand for. -/
theorem ofBits_toBits (x : Binary64) : ofBits x.toBits = x := by
  cases x with
  | nan => decide
  | infinite negative => cases negative <;> decide
  | finite negative rank =>
    have hlt : rank.val < signBit := Nat.lt_trans rank.isLt (by decide)
    have hmod : (UInt64.ofNat (negative.toNat * signBit + rank)).toNat = negative.toNat * signBit + rank := by
      rw [UInt64.toNat_ofNat']
      refine Nat.mod_eq_of_lt ?_
      have : negative.toNat ≤ 1 := Bool.toNat_le negative
      simp only [signBit] at hlt ⊢
      omega
    have hsign : decide (signBit ≤ negative.toNat * signBit + rank.val) = negative := by
      cases negative with
      | false => exact decide_eq_false (by simp only [Bool.toNat_false]; omega)
      | true => exact decide_eq_true (by simp only [Bool.toNat_true]; omega)
    simp only [toBits, ofBits, hmod, Nat.mul_add_mod_of_lt hlt, hsign, dif_pos rank.isLt]

end Binary64
end Calculator
