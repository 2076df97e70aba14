import Calculator.Proofs.Binary64.Distance
/-!
# Values and what is asked of them

A finite double is a magnitude with a sign (`value_eq`).  What the functions of the calculator ask of a double, whether
it is a zero, whole, odd or below zero, they ask of the sign and the quanta; each answer says what it should about the
value (`isZero_iff`, `isIntegral_iff`, `isOdd_iff`, `lt_zero_iff`).
-/
namespace Calculator

namespace Binary64

/-! ## Signed values -/

/-- A magnitude with a sign. -/
def signed (negative : Bool) (q : ℚ) : ℚ := if negative then -q else q

theorem abs_signed (negative : Bool) (hq : 0 ≤ q) : |signed negative q| = q := by
  cases negative
  · exact abs_of_nonneg hq
  · exact (abs_neg q).trans (abs_of_nonneg hq)

theorem signed_sub (negative : Bool) (p q : ℚ) : signed negative (p - q) = signed negative p - signed negative q := by
  cases negative
  · rfl
  · exact (neg_sub p q).trans (neg_sub_neg p q).symm

theorem signed_div (negative : Bool) (p q : ℚ) : signed negative p / q = signed negative (p / q) := by
  cases negative
  · rfl
  · exact neg_div q p

theorem signed_mul_signed (a b : Bool) (p q : ℚ) : signed a p * signed b q = signed (a != b) (p * q) := by
  cases a <;> cases b
  · rfl
  · exact mul_neg p q
  · exact neg_mul p q
  · exact neg_mul_neg p q

theorem signed_div_signed (a b : Bool) (p q : ℚ) : signed a p / signed b q = signed (a != b) (p / q) := by
  cases a <;> cases b
  · rfl
  · exact div_neg p
  · exact neg_div q p
  · exact neg_div_neg_eq p q

variable {x y : Binary64} {negative : Bool}

theorem value_eq (x : Binary64) : x.value = signed x.isNegative (x.quanta / quantaPerUnit) := by
  rw [value, signedQuanta, signed]
  cases x.isNegative
  · rw [if_neg Bool.false_ne_true, if_neg Bool.false_ne_true, Int.cast_natCast]
  · rw [if_pos rfl, if_pos rfl, Int.cast_neg, Int.cast_natCast, neg_div]

theorem abs_value (x : Binary64) : |x.value| = x.quanta / quantaPerUnit := by
  rw [value_eq, abs_signed _ (div_nonneg (Nat.cast_nonneg _) (Nat.cast_nonneg _))]

theorem signedQuanta_neg (x : Binary64) : x.neg.signedQuanta = -x.signedQuanta := by
  cases x with
  | nan => rfl
  | infinite negative => cases negative <;> rfl
  | finite negative rank =>
    rw [neg, signedQuanta, signedQuanta, isNegative, isNegative, quanta, quanta]
    cases negative
    · rw [Bool.not_false, if_pos rfl, if_neg Bool.false_ne_true]
    · rw [Bool.not_true, if_pos rfl, if_neg Bool.false_ne_true, Int.neg_neg]

theorem value_neg (x : Binary64) : x.neg.value = -x.value := by
  rw [value, value, signedQuanta_neg, Int.cast_neg, neg_div]

theorem neg_neg_eq (x : Binary64) : x.neg.neg = x := by
  cases x with
  | nan => rfl
  | infinite negative => rw [neg, neg, Bool.not_not]
  | finite negative rank => rw [neg, neg, Bool.not_not]

theorem exists_finite (hx : x.isFinite = true) : ∃ negative rank, x = finite negative rank := by
  cases x with
  | nan => nomatch hx
  | infinite => nomatch hx
  | finite negative rank => exact ⟨negative, rank, rfl⟩

theorem isFinite_neg (x : Binary64) : x.neg.isFinite = x.isFinite := by cases x <;> rfl

/-! ## Kinds of values -/

theorem isZero_iff (hx : x.isFinite = true) : x.isZero = true ↔ x.value = 0 := by
  obtain ⟨negative, rank, rfl⟩ := exists_finite hx
  rw [isZero, beq_iff_eq, ← abs_eq_zero, abs_value, div_eq_zero_iff, or_iff_left cast_quantaPerUnit_ne_zero,
    Nat.cast_eq_zero, quanta, ← sizeAt_strictMono.injective.eq_iff, sizeAt_zero]

theorem value_lt_zero_iff (x : Binary64) : x.value < 0 ↔ x.signedQuanta < 0 := by
  rw [value, div_lt_iff₀ cast_quantaPerUnit_pos, zero_mul, Int.cast_lt_zero]

theorem lt_zero_iff (hx : x.isFinite = true) : x.lt (zero false) = true ↔ x.value < 0 := by
  obtain ⟨negative, rank, rfl⟩ := exists_finite hx
  rw [value_lt_zero_iff]
  cases negative with
  | false =>
    refine iff_of_false (fun h => ?_) (Int.not_lt.2 (Int.natCast_nonneg (sizeAt rank)))
    have hplace : (rank.val : Int) < 0 := of_decide_eq_true h
    omega
  | true =>
    have hplace : (finite true rank).lt (zero false) = true ↔ -(rank.val : Int) < 0 := decide_eq_true_iff
    have hsize : sizeAt 0 < sizeAt rank ↔ 0 < rank.val := sizeAt_strictMono.lt_iff_lt
    rw [sizeAt_zero] at hsize
    rw [hplace, signedQuanta, isNegative, if_pos rfl, quanta]
    omega

/-- A double of a whole value has as many quanta. -/
theorem quanta_of_value {i : ℤ} (h : x.value = i) : x.quanta = i.natAbs * quantaPerUnit := by
  have habs : |x.value| = i.natAbs := by rw [h, ← Int.cast_abs, Int.abs_eq_natAbs, Int.cast_natCast]
  rw [abs_value, div_eq_iff cast_quantaPerUnit_ne_zero] at habs
  exact_mod_cast habs

theorem wholePart_of_value {i : ℤ} (h : x.value = i) : x.wholePart = i.natAbs := by
  rw [wholePart, quanta_of_value h, Nat.mul_div_cancel _ quantaPerUnit_pos]

theorem isIntegral_iff (hx : x.isFinite = true) : x.isIntegral = true ↔ ∃ i : ℤ, x.value = i := by
  constructor
  · intro h
    refine ⟨if x.isNegative then -(x.wholePart : ℤ) else x.wholePart, ?_⟩
    rw [value_eq, quanta_of_isIntegral h, Nat.cast_mul, mul_div_cancel_right₀ _ cast_quantaPerUnit_ne_zero]
    cases x.isNegative
    · exact (Int.cast_natCast _).symm
    · exact ((Int.cast_neg _).trans (congrArg _ (Int.cast_natCast _))).symm
  · rintro ⟨i, hi⟩
    obtain ⟨negative, rank, rfl⟩ := exists_finite hx
    refine isIntegral_finite ?_
    rw [← quanta, quanta_of_value hi]
    exact Nat.dvd_mul_left _ _

/-- A finite double that is an odd number. -/
def OddInteger (x : Binary64) : Prop := x.isFinite = true ∧ ∃ i : ℤ, Odd i ∧ x.value = i

theorem isOdd_iff (x : Binary64) : x.isOdd = true ↔ x.OddInteger := by
  rw [isOdd, Bool.and_eq_true, beq_iff_eq]
  constructor
  · rintro ⟨hintegral, hodd⟩
    have hfinite := isFinite_of_isIntegral hintegral
    obtain ⟨i, hi⟩ := (isIntegral_iff hfinite).1 hintegral
    rw [wholePart_of_value hi, ← Nat.odd_iff, Int.natAbs_odd] at hodd
    exact ⟨hfinite, i, hodd, hi⟩
  · rintro ⟨hfinite, i, hodd, hi⟩
    refine ⟨(isIntegral_iff hfinite).2 ⟨i, hi⟩, ?_⟩
    rwa [wholePart_of_value hi, ← Nat.odd_iff, Int.natAbs_odd]

theorem isOdd_eq_false (h : ¬ x.OddInteger) : x.isOdd = false := by
  rw [← Bool.not_eq_true, isOdd_iff]
  exact h

end Binary64
end Calculator
