import Calculator.Proofs.Binary64.Ranks
import Mathlib.Algebra.Field.Rat
import Mathlib.Algebra.Order.Ring.Rat
import Mathlib.Data.Nat.Cast.Order.Field
import Mathlib.Tactic.FieldSimp
import Mathlib.Tactic.Linarith
/-!
# The nearest double

The numbers that round to a rank lie between the middles to the two neighbours, the middles themselves if the rank is
even (`RoundsTo`).  No number rounds to two ranks (`RoundsTo.unique`), and a quotient rounds to the rank that is computed
for it (`roundsTo_nearestRank`); so that rank depends on the value of the quotient alone.
-/
namespace Calculator

/-- Twice the middle between a rank and the next. -/
def middle (rank : Nat) : Nat := sizeAt rank + sizeAt (rank + 1)

/-- A number of quanta is nearest to the size of a rank, and to that of an even rank if two are equally near. -/
structure RoundsTo (q : ℚ) (rank : Nat) : Prop where
  above : 0 < rank → (middle (rank - 1) : ℚ) < 2 * q ∨ (middle (rank - 1) : ℚ) = 2 * q ∧ rank % 2 = 0
  below : 2 * q < middle rank ∨ 2 * q = middle rank ∧ rank % 2 = 0

variable {q : ℚ} {rank other num den : Nat}

theorem middle_strictMono : StrictMono middle := by
  intro a b h
  have hsize := sizeAt_strictMono h
  have hnext := sizeAt_strictMono (Nat.succ_lt_succ h)
  exact Nat.add_lt_add hsize hnext

theorem two_mul_sizeAt_lt_middle (rank : Nat) : 2 * (sizeAt rank : ℚ) < middle rank := by
  have hless : sizeAt rank < sizeAt (rank + 1) := sizeAt_strictMono (Nat.lt_succ_self rank)
  have hmiddle : 2 * sizeAt rank < middle rank := by
    rw [middle]
    omega
  exact_mod_cast hmiddle

theorem middle_lt_two_mul_sizeAt (rank : Nat) : (middle rank : ℚ) < 2 * sizeAt (rank + 1) := by
  have hless : sizeAt rank < sizeAt (rank + 1) := sizeAt_strictMono (Nat.lt_succ_self rank)
  have hmiddle : middle rank < 2 * sizeAt (rank + 1) := by
    rw [middle]
    omega
  exact_mod_cast hmiddle

namespace RoundsTo

theorem not_lt (h : RoundsTo q rank) (hother : RoundsTo q other) : ¬ rank < other := by
  intro hlt
  have hle : middle rank ≤ middle (other - 1) := middle_strictMono.monotone (by omega)
  have hleq : (middle rank : ℚ) ≤ middle (other - 1) := Nat.cast_le.2 hle
  -- the number can only be the middle between the two, which are next to each other
  rcases h.below with hbelow | ⟨hbelow, heven⟩
  · rcases hother.above (by omega) with habove | ⟨habove, -⟩ <;> linarith
  · rcases hother.above (by omega) with habove | ⟨habove, heven'⟩
    · linarith
    · have hmiddle : middle rank = middle (other - 1) := by
        rw [← Nat.cast_inj (R := ℚ), ← hbelow, habove]
      have := middle_strictMono.injective hmiddle
      omega

/-- **No number rounds to two ranks.** -/
theorem unique (h : RoundsTo q rank) (hother : RoundsTo q other) : rank = other :=
  Nat.le_antisymm (Nat.le_of_not_lt (hother.not_lt h)) (Nat.le_of_not_lt (h.not_lt hother))

theorem lower (hsize : (sizeAt rank : ℚ) ≤ q) (h : 2 * q < middle rank ∨ 2 * q = middle rank ∧ rank % 2 = 0) :
    RoundsTo q rank := by
  refine ⟨fun hpos => .inl ?_, h⟩
  obtain ⟨before, rfl⟩ := Nat.exists_eq_succ_of_ne_zero hpos.ne'
  have hmiddle := middle_lt_two_mul_sizeAt before
  rw [Nat.succ_eq_add_one, Nat.add_sub_cancel] at *
  linarith

theorem upper (hsize : q < sizeAt (rank + 1))
    (h : (middle rank : ℚ) < 2 * q ∨ (middle rank : ℚ) = 2 * q ∧ (rank + 1) % 2 = 0) : RoundsTo q (rank + 1) := by
  refine ⟨fun _ => h, .inl ?_⟩
  have hmiddle := two_mul_sizeAt_lt_middle (rank + 1)
  linarith

theorem size (rank : Nat) : RoundsTo (sizeAt rank) rank :=
  .lower (le_refl _) (.inl (two_mul_sizeAt_lt_middle rank))

theorem le_of_sizeAt_le (h : RoundsTo q rank) (hq : (sizeAt other : ℚ) ≤ q) : other ≤ rank := by
  by_contra hlt
  have hnext : sizeAt (rank + 1) ≤ sizeAt other := sizeAt_strictMono.monotone (Nat.lt_of_not_le hlt)
  have hnextq : (sizeAt (rank + 1) : ℚ) ≤ sizeAt other := Nat.cast_le.2 hnext
  have hmiddle := middle_lt_two_mul_sizeAt rank
  rcases h.below with hbelow | ⟨hbelow, -⟩ <;> linarith

end RoundsTo

/-! ## The rank that is computed -/

theorem nearestRank_eq (num den : Nat) : nearestRank num den =
    if 2 * num < middle (rankBelow (num / den)) * den then rankBelow (num / den)
    else if 2 * num = middle (rankBelow (num / den)) * den then
      rankBelow (num / den) + rankBelow (num / den) % 2
    else rankBelow (num / den) + 1 := rfl

/-- **A quotient rounds to the rank that is computed for it.** -/
theorem roundsTo_nearestRank (num : Nat) (hden : 0 < den) : RoundsTo (num / den) (nearestRank num den) := by
  have hdenq : (0 : ℚ) < den := Nat.cast_pos.2 hden
  have hbelow : (sizeAt (rankBelow (num / den)) : ℚ) ≤ num / den := by
    rw [le_div_iff₀ hdenq]
    exact_mod_cast (Nat.le_div_iff_mul_le hden).1 (sizeAt_rankBelow_le (num / den))
  have habove : (num / den : ℚ) < sizeAt (rankBelow (num / den) + 1) := by
    rw [div_lt_iff₀ hdenq]
    exact_mod_cast (Nat.div_lt_iff_lt_mul hden).1 (lt_sizeAt_rankBelow_succ (num / den))
  rw [nearestRank_eq]
  -- the rank below and the next are the candidates, and the quotient lies before, on or behind the middle
  generalize rankBelow (num / den) = below at hbelow habove ⊢
  rcases Nat.lt_trichotomy (2 * num) (middle below * den) with hlt | heq | hgt
  · rw [if_pos hlt]
    refine .lower hbelow (.inl ?_)
    rw [← mul_div_assoc, div_lt_iff₀ hdenq]
    exact_mod_cast hlt
  · have htie : (2 : ℚ) * (num / den) = middle below := by
      rw [← mul_div_assoc, div_eq_iff hdenq.ne']
      exact_mod_cast heq
    rw [if_neg heq.not_lt, if_pos heq]
    rcases Nat.mod_two_eq_zero_or_one below with heven | hodd
    · rw [heven]
      exact .lower hbelow (.inr ⟨htie, heven⟩)
    · rw [hodd]
      exact .upper habove (.inr ⟨htie.symm, by omega⟩)
  · rw [if_neg (Nat.lt_asymm hgt), if_neg (Nat.ne_of_gt hgt)]
    refine .upper habove (.inl ?_)
    rw [← mul_div_assoc, lt_div_iff₀ hdenq]
    exact_mod_cast hgt

theorem nearestRank_of_roundsTo (hden : 0 < den) (h : RoundsTo (num / den) rank) : nearestRank num den = rank :=
  (roundsTo_nearestRank num hden).unique h

theorem Binary64.ofQuotient_of_roundsTo (hden : 0 < den) (h : RoundsTo (num / den) rank) (negative : Bool) :
    ofQuotient negative num den = atRank negative rank := by
  rw [ofQuotient, nearestRank_of_roundsTo hden h]

end Calculator
