import Calculator.Proofs.Binary64.Value
/-!
# Rounding with a sign

A magnitude is rounded apart from its sign.  So the nearest double to a number below zero is that of its opposite with
the sign turned (`Nearest.neg`), and what `ofQuotient` gives is the rounding of a signed number as IEEE 754 says it
(`isRounded_ofQuotient`): the nearest double if there is one in range, infinite from half a step behind the last finite
double on, and always with the given sign, a zero included.  Nothing else is (`IsRounded.unique`).
-/
namespace Calculator

variable {q : ℚ} {rank : Nat}

/-! ## Where the doubles end -/

theorem two_mul_quantaPerUnit : (2 : ℚ) * quantaPerUnit = 2 ^ 1075 := by
  rw [quantaPerUnit_eq, Nat.cast_pow, Nat.cast_ofNat, ← pow_succ']

/-- The numbers that are too large start half a step behind the last finite double. -/
theorem rankLimit_le_iff_value (h : RoundsTo (q * quantaPerUnit) rank) :
    rankLimit ≤ rank ↔ 2 ^ 1024 - 2 ^ 970 ≤ q := by
  have hlast := congrArg (Nat.cast (R := ℚ)) middle_last
  simp only [Nat.cast_add, Nat.cast_mul, Nat.cast_pow, Nat.cast_ofNat] at hlast
  have hunit := cast_quantaPerUnit_pos
  rw [h.rankLimit_le_iff]
  generalize (2 : ℚ) ^ 1024 = limit at hlast ⊢
  generalize (2 : ℚ) ^ 970 = half at hlast ⊢
  have hmiddle : (middle (rankLimit - 1) : ℚ) = 2 * ((limit - half) * quantaPerUnit) := by linarith
  rw [hmiddle, mul_le_mul_iff_right₀ two_pos, mul_le_mul_iff_left₀ hunit]

/-- The numbers that vanish end half a step behind zero. -/
theorem eq_zero_iff_value (h : RoundsTo (q * quantaPerUnit) rank) : rank = 0 ↔ q ≤ 1 / 2 ^ 1075 := by
  rw [h.eq_zero_iff, le_div_iff₀ (pow_pos two_pos 1075), ← two_mul_quantaPerUnit, mul_left_comm]

namespace Binary64

variable {x y : Binary64} {negative : Bool}

/-! ## Opposite numbers -/

theorem significand_neg (x : Binary64) : x.neg.significand = x.significand := by cases x <;> rfl

/-- **The nearest double to the opposite number is the opposite double.** -/
theorem Nearest.neg (h : x.Nearest q) : x.neg.Nearest (-q) := by
  have hdist : ∀ y : Binary64, |y.value - -q| = |y.neg.value - q| := fun y => by
    rw [value_neg, ← neg_add', abs_neg, sub_neg_eq_add]
  refine ⟨(isFinite_neg x).trans h.isFinite, fun y hy => ?_, fun y hy htie hne => ?_⟩
  · rw [hdist, hdist, neg_neg_eq]
    exact h.dist_le y.neg ((isFinite_neg y).trans hy)
  · rw [hdist, hdist, neg_neg_eq] at htie
    rw [significand_neg]
    refine h.even y.neg ((isFinite_neg y).trans hy) htie fun heq => hne ?_
    rw [value_neg, ← heq, value_neg, neg_neg]

/-! ## Correct rounding -/

/-- What a number is rounded to by IEEE 754, with a given sign: the nearest double, and an infinity from half a step
behind the last finite double on. -/
structure IsRounded (negative : Bool) (q : ℚ) (x : Binary64) : Prop where
  isNegative : x.isNegative = negative
  nearest : |q| < 2 ^ 1024 - 2 ^ 970 → x.Nearest q
  overflow : 2 ^ 1024 - 2 ^ 970 ≤ |q| → x = infinite negative

theorem neg_atRank (negative : Bool) (rank : Nat) : (atRank negative rank).neg = atRank (!negative) rank := by
  rw [atRank, atRank]
  split <;> rfl

theorem isNegative_atRank (negative : Bool) (rank : Nat) : (atRank negative rank).isNegative = negative := by
  rw [atRank]
  split <;> rfl

theorem nearest_atRank (negative : Bool) (hq : 0 ≤ q) (h : RoundsTo (q * quantaPerUnit) rank)
    (hrank : rank < rankLimit) : (atRank negative rank).Nearest (signed negative q) := by
  have hpositive : (atRank false rank).Nearest q := by
    rw [atRank, dif_pos hrank]
    exact @nearest_of_roundsTo _ ⟨rank, hrank⟩ hq h
  cases negative with
  | false => exact hpositive
  | true =>
    rw [← Bool.not_false, ← neg_atRank]
    exact hpositive.neg

/-- **A quotient of quanta is rounded correctly**, whatever its sign. -/
theorem isRounded_ofQuotient (negative : Bool) (num : Nat) {den : Nat} (hden : 0 < den) :
    IsRounded negative (signed negative (num / den / quantaPerUnit)) (ofQuotient negative num den) := by
  have hq : (0 : ℚ) ≤ num / den / quantaPerUnit :=
    div_nonneg (div_nonneg (Nat.cast_nonneg _) (Nat.cast_nonneg _)) (Nat.cast_nonneg _)
  have hround : RoundsTo (num / den / quantaPerUnit * quantaPerUnit) (nearestRank num den) := by
    rw [div_mul_cancel₀ _ cast_quantaPerUnit_ne_zero]
    exact roundsTo_nearestRank num hden
  have hlimit := rankLimit_le_iff_value hround
  rw [ofQuotient]
  refine ⟨isNegative_atRank _ _, fun hlt => ?_, fun hle => ?_⟩
  · rw [abs_signed negative hq, ← not_le, ← hlimit, not_le] at hlt
    exact nearest_atRank negative hq hround hlt
  · rw [abs_signed negative hq, ← hlimit] at hle
    rw [atRank, dif_neg (Nat.not_lt.2 hle)]

/-! ## Nothing else is the rounding -/

theorem abs_sub_lt_of_between {a b m : ℚ} (hlow : a < m) (hhigh : m < b) (htie : |a - q| = |b - q|) :
    |m - q| < |a - q| := by
  have hq : a - q = -(b - q) := (abs_eq_abs.1 htie).resolve_left fun heq => by linarith
  rw [abs_of_neg (by linarith : a - q < 0)]
  exact abs_lt.2 ⟨by linarith, by linarith⟩

/-- Between two doubles of one sign that are as near to a number, but not next to each other, there is a nearer one. -/
theorem exists_nearer {a b : Fin rankLimit} (hab : a.val + 1 < b.val)
    (htie : |(finite negative a).value - q| = |(finite negative b).value - q|) :
    ∃ y : Binary64, y.isFinite = true ∧ |y.value - q| < |(finite negative a).value - q| := by
  have hlow : (sizeAt a : ℚ) / quantaPerUnit < sizeAt (a + 1) / quantaPerUnit :=
    div_lt_div_of_pos_right (Nat.cast_lt.2 (sizeAt_strictMono (Nat.lt_succ_self _))) cast_quantaPerUnit_pos
  have hhigh : (sizeAt (a + 1) : ℚ) / quantaPerUnit < sizeAt b / quantaPerUnit :=
    div_lt_div_of_pos_right (Nat.cast_lt.2 (sizeAt_strictMono hab)) cast_quantaPerUnit_pos
  refine ⟨finite negative ⟨a + 1, Nat.lt_trans hab b.isLt⟩, rfl, ?_⟩
  rw [value_eq, value_eq] at htie ⊢
  cases negative with
  | false => exact abs_sub_lt_of_between hlow hhigh htie
  | true => exact (abs_sub_lt_of_between (neg_lt_neg hhigh) (neg_lt_neg hlow) htie.symm).trans_eq htie.symm

/-- Of two doubles of one sign that are nearest to a number neither is larger. -/
theorem Nearest.not_lt {a b : Fin rankLimit} (ha : (finite negative a).Nearest q) (hb : (finite negative b).Nearest q) :
    ¬ a.val < b.val := by
  intro hab
  have htie := le_antisymm (ha.dist_le _ hb.isFinite) (hb.dist_le _ ha.isFinite)
  have hne : (finite negative b).value ≠ (finite negative a).value := by
    intro heq
    have hquanta : |(finite negative b).value| = |(finite negative a).value| := by rw [heq]
    rw [abs_value, abs_value, div_left_inj' cast_quantaPerUnit_ne_zero, Nat.cast_inj] at hquanta
    exact hab.ne' (sizeAt_strictMono.injective hquanta)
  -- both are even, so they are not next to each other
  have heven := ha.even _ hb.isFinite htie.symm hne
  have heven' := hb.even _ ha.isFinite htie hne.symm
  rw [significand_mod_two] at heven heven'
  obtain ⟨y, hy, hnearer⟩ := exists_nearer (by omega) htie
  exact absurd (ha.dist_le y hy) (not_le.2 hnearer)

/-- **A number has one rounding of a sign.** -/
theorem IsRounded.unique (hx : IsRounded negative q x) (hy : IsRounded negative q y) : x = y := by
  rcases lt_or_ge |q| (2 ^ 1024 - 2 ^ 970) with hlt | hle
  · have hxq := hx.nearest hlt
    have hyq := hy.nearest hlt
    obtain ⟨a, rank, rfl⟩ := exists_finite hxq.isFinite
    obtain ⟨b, rank', rfl⟩ := exists_finite hyq.isFinite
    obtain rfl : a = negative := hx.isNegative
    obtain rfl : b = a := hy.isNegative
    rw [Fin.ext (Nat.le_antisymm (Nat.le_of_not_lt (hyq.not_lt hxq)) (Nat.le_of_not_lt (hxq.not_lt hyq)))]
  · rw [hx.overflow hle, hy.overflow hle]

end Binary64
end Calculator
