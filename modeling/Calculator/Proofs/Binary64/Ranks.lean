import Calculator.Binary64.Rounding
import Mathlib.Algebra.Ring.Nat
import Mathlib.Order.Monotone.Basic
/-!
# Ranks and sizes

The next double in size is one step away, and the step is a power of two that doubles from binade to binade
(`sizeAt_succ`).  So sizes grow with ranks, and every whole number of quanta lies between the sizes of one rank and the
next (`sizeAt_rankBelow_le`, `lt_sizeAt_rankBelow_succ`).
-/
namespace Calculator

/-- A rank as its doublings and what is left: below two binades, and from one binade on if there are doublings. -/
def Significand (d m : Nat) : Prop := m < 2 * binade ∧ (d = 0 ∨ binade ≤ m)

variable {d m rank q : Nat}

theorem Significand.doublings_eq (h : Significand d m) : doublings (d * binade + m) = d := by
  obtain ⟨hm, hd⟩ := h
  unfold doublings binade at *
  omega

theorem Significand.sizeAt_eq (h : Significand d m) : sizeAt (d * binade + m) = m * 2 ^ d := by
  rw [sizeAt, h.doublings_eq, Nat.add_sub_cancel_left, Nat.pow_eq]

theorem exists_significand (rank : Nat) : ∃ d m, rank = d * binade + m ∧ Significand d m := by
  refine ⟨doublings rank, rank - doublings rank * binade, ?_⟩
  unfold Significand doublings binade
  omega

/-- **The next size is one step further.** -/
theorem sizeAt_succ (rank : Nat) : sizeAt (rank + 1) = sizeAt rank + 2 ^ doublings rank := by
  obtain ⟨d, m, rfl, h⟩ := exists_significand rank
  rw [h.sizeAt_eq, h.doublings_eq]
  by_cases hm : m + 1 < 2 * binade
  · have hnext : Significand d (m + 1) := ⟨hm, h.2.imp id fun hd => Nat.le_succ_of_le hd⟩
    rw [Nat.add_assoc, hnext.sizeAt_eq, Nat.succ_mul]
  · -- the last rank of a binade
    have hlast : m + 1 = 2 * binade := Nat.le_antisymm h.1 (Nat.le_of_not_lt hm)
    have hnext : Significand (d + 1) binade := ⟨by decide, .inr (Nat.le_refl _)⟩
    have hrank : d * binade + m + 1 = (d + 1) * binade + binade := by
      unfold binade at *
      omega
    rw [hrank, hnext.sizeAt_eq, ← Nat.succ_mul, Nat.succ_eq_add_one, hlast, Nat.pow_succ', Nat.mul_comm 2 binade,
      Nat.mul_assoc]

theorem sizeAt_strictMono : StrictMono sizeAt := by
  refine strictMono_nat_of_lt_succ fun rank => ?_
  rw [sizeAt_succ]
  exact Nat.lt_add_of_pos_right (Nat.two_pow_pos _)

theorem sizeAt_zero : sizeAt 0 = 0 := rfl

theorem sizeAt_pos (h : 0 < rank) : 0 < sizeAt rank := by
  have := sizeAt_strictMono h
  rwa [sizeAt_zero] at this

/-! ## The rank below a number of quanta -/

theorem significand_of_quanta (q : Nat) : Significand (q.log2 - 52) (q / 2 ^ (q.log2 - 52)) := by
  have hbinade : binade = 2 ^ 52 := rfl
  constructor
  · have hq : q < 2 ^ (q.log2 + 1) := Nat.lt_log2_self
    have hpow : 2 ^ (q.log2 + 1) ≤ 2 * binade * 2 ^ (q.log2 - 52) := by
      rw [hbinade, ← Nat.pow_succ', ← Nat.pow_add]
      exact Nat.pow_le_pow_right (by decide) (by omega)
    exact Nat.div_lt_of_lt_mul (by rw [Nat.mul_comm]; exact Nat.lt_of_lt_of_le hq hpow)
  · by_cases hd : q.log2 - 52 = 0
    · exact .inl hd
    · have hq : q ≠ 0 := by
        rintro rfl
        exact hd rfl
      refine .inr ((Nat.le_div_iff_mul_le (Nat.two_pow_pos _)).2 ?_)
      rw [hbinade, ← Nat.pow_add, show 52 + (q.log2 - 52) = q.log2 by omega]
      exact Nat.log2_self_le hq

theorem sizeAt_rankBelow (q : Nat) : sizeAt (rankBelow q) = q / 2 ^ (q.log2 - 52) * 2 ^ (q.log2 - 52) :=
  (significand_of_quanta q).sizeAt_eq

theorem sizeAt_rankBelow_le (q : Nat) : sizeAt (rankBelow q) ≤ q := by
  rw [sizeAt_rankBelow]
  exact Nat.div_mul_le_self _ _

theorem lt_sizeAt_rankBelow_succ (q : Nat) : q < sizeAt (rankBelow q + 1) := by
  have hdoublings : doublings (rankBelow q) = q.log2 - 52 := (significand_of_quanta q).doublings_eq
  rw [sizeAt_succ, sizeAt_rankBelow, hdoublings, ← Nat.succ_mul, Nat.mul_comm]
  exact Nat.lt_mul_div_succ q (Nat.two_pow_pos _)

end Calculator
