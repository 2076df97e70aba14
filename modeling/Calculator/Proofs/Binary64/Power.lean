import Calculator.Proofs.Binary64.Quotient
import Calculator.Proofs.Binary64.Traps
/-!
# Powers

The standard of C lists the powers with a special operand: a zero, one, an infinity, a NaN, a negative number to a
fraction (`SpecialPower`).  Beyond the list, and beside how exact the machine is, all that is known of a power is its
sign (`IsPower`).  The power of the calculator keeps to both (`isPower_pow`), and the list leaves out nothing but proper
powers of finite numbers (`SpecialPower.total`).
-/
namespace Calculator
namespace Binary64

variable {x y : Binary64}

/-! ## Signs and the number one -/

/-- A number below zero, or the negative infinity. -/
def Negative (x : Binary64) : Prop := x.isFinite = true ∧ x.value < 0 ∨ x = infinite true

/-- A number above zero, or the positive infinity. -/
def Positive (x : Binary64) : Prop := x.isFinite = true ∧ 0 < x.value ∨ x = infinite false

theorem isNegative_of_value_lt (h : x.value < 0) : x.isNegative = true := by
  rw [value_eq] at h
  cases hx : x.isNegative with
  | true => rfl
  | false =>
    rw [hx] at h
    exact absurd h (not_lt.2 (div_nonneg (Nat.cast_nonneg _) (Nat.cast_nonneg _)))

theorem isNegative_of_value_pos (h : 0 < x.value) : x.isNegative = false := by
  rw [value_eq] at h
  cases hx : x.isNegative with
  | false => rfl
  | true =>
    rw [hx] at h
    exact absurd (neg_pos.1 h) (not_lt.2 (div_nonneg (Nat.cast_nonneg _) (Nat.cast_nonneg _)))

theorem Negative.kind (h : x.Negative) : x.isNaN = false ∧ x.isZero = false ∧ x.isNegative = true := by
  rcases h with ⟨hx, hvalue⟩ | rfl
  · exact ⟨Guarded.isNaN_eq_false hx, (isZero_eq_false_iff hx).2 hvalue.ne, isNegative_of_value_lt hvalue⟩
  · exact ⟨rfl, rfl, rfl⟩

theorem Positive.kind (h : x.Positive) : x.isNaN = false ∧ x.isZero = false ∧ x.isNegative = false := by
  rcases h with ⟨hx, hvalue⟩ | rfl
  · exact ⟨Guarded.isNaN_eq_false hx, (isZero_eq_false_iff hx).2 hvalue.ne', isNegative_of_value_pos hvalue⟩
  · exact ⟨rfl, rfl, rfl⟩

theorem same_one_iff : x.same one = true ↔ x = one := by
  rw [one_eq]
  cases x with
  | nan => exact iff_of_false Bool.false_ne_true (by nofun)
  | infinite negative =>
    refine iff_of_false ?_ (by nofun)
    cases negative <;> decide
  | finite negative rank =>
    rw [same, place?, place?, beq_iff_eq, finite.injEq, Fin.ext_iff]
    cases negative with
    | false => exact ⟨fun h => ⟨rfl, Int.ofNat_inj.1 h⟩, fun h => congrArg Int.ofNat h.2⟩
    | true =>
      refine iff_of_false ?_ (fun h => nomatch h.1)
      simp only [if_true, Bool.false_eq_true, if_false]
      omega

theorem same_one_eq_false (h : x ≠ one) : x.same one = false := by
  rw [← Bool.not_eq_true, same_one_iff]
  exact h

theorem value_one : one.value = 1 := by
  rw [one_eq, value_eq, isNegative, quanta, sizeAt_one]
  exact div_self cast_quantaPerUnit_ne_zero

theorem abs_lt_one_iff (hx : x.isFinite = true) : x.abs.lt one = true ↔ |x.value| < 1 := by
  rw [abs_value, div_lt_one cast_quantaPerUnit_pos, Nat.cast_lt, one_eq, ← sizeAt_one]
  obtain ⟨negative, rank, rfl⟩ := exists_finite hx
  rw [Binary64.abs, withSign, lt, place?, place?, quanta, sizeAt_strictMono.lt_iff_lt, decide_eq_true_iff]
  exact Int.ofNat_lt

theorem abs_lt_one_eq_false (hx : x.isFinite = true) (h : 1 < |x.value|) : x.abs.lt one = false := by
  rw [← Bool.not_eq_true, abs_lt_one_iff hx]
  exact h.not_gt

theorem abs_same_one_iff (hx : x.isFinite = true) : x.abs.same one = true ↔ |x.value| = 1 := by
  rw [abs_value, div_eq_one_iff_eq cast_quantaPerUnit_ne_zero, Nat.cast_inj, one_eq, ← sizeAt_one]
  obtain ⟨negative, rank, rfl⟩ := exists_finite hx
  rw [Binary64.abs, withSign, same, place?, place?, quanta, sizeAt_strictMono.injective.eq_iff, beq_iff_eq]
  exact Int.ofNat_inj

/-! ## The table -/

/-- The powers with a special operand, as the standard of C lists them. -/
inductive SpecialPower : Binary64 → Binary64 → Binary64 → Prop where
  | exponent_zero (x : Binary64) (b : Bool) : SpecialPower x (zero b) one
  | base_one (y : Binary64) : SpecialPower one y one
  | base_nan {y : Binary64} (hy : y.isZero = false) : SpecialPower nan y nan
  | exponent_nan {x : Binary64} (hx : x ≠ one) : SpecialPower x nan nan
  | zero_odd_negative {y : Binary64} (a : Bool) (hy : y.Negative) (hodd : y.OddInteger) :
    SpecialPower (zero a) y (infinite a)
  | zero_negative {y : Binary64} (a : Bool) (hy : y.Negative) (hodd : ¬ y.OddInteger) :
    SpecialPower (zero a) y (infinite false)
  | zero_odd_positive {y : Binary64} (a : Bool) (hy : y.Positive) (hodd : y.OddInteger) :
    SpecialPower (zero a) y (zero a)
  | zero_positive {y : Binary64} (a : Bool) (hy : y.Positive) (hodd : ¬ y.OddInteger) :
    SpecialPower (zero a) y (zero false)
  | minus_one_infinite (b : Bool) : SpecialPower one.neg (infinite b) one
  | small_negative_infinite {x : Binary64} (hx : x.isFinite = true) (h : |x.value| < 1) :
    SpecialPower x (infinite true) (infinite false)
  | large_negative_infinite {x : Binary64} (hx : x.isFinite = true) (h : 1 < |x.value|) :
    SpecialPower x (infinite true) (zero false)
  | small_positive_infinite {x : Binary64} (hx : x.isFinite = true) (h : |x.value| < 1) :
    SpecialPower x (infinite false) (zero false)
  | large_positive_infinite {x : Binary64} (hx : x.isFinite = true) (h : 1 < |x.value|) :
    SpecialPower x (infinite false) (infinite false)
  | infinite_odd_negative {y : Binary64} (a : Bool) (hy : y.Negative) (hodd : y.OddInteger) :
    SpecialPower (infinite a) y (zero a)
  | infinite_negative {y : Binary64} (a : Bool) (hy : y.Negative) (hodd : ¬ y.OddInteger) :
    SpecialPower (infinite a) y (zero false)
  | infinite_odd_positive {y : Binary64} (a : Bool) (hy : y.Positive) (hodd : y.OddInteger) :
    SpecialPower (infinite a) y (infinite a)
  | infinite_positive {y : Binary64} (a : Bool) (hy : y.Positive) (hodd : ¬ y.OddInteger) :
    SpecialPower (infinite a) y (infinite false)
  | negative_fraction {x y : Binary64} (hx : x.isFinite = true) (hneg : x.value < 0) (hy : y.isFinite = true)
    (hfraction : ¬ ∃ i : ℤ, y.value = i) : SpecialPower x y nan

/-- A power function by the standard of C: the special operands have the powers of the table, and a power of finite
numbers is negative if the base is and the exponent is odd. -/
structure IsPower (pow : Binary64 → Binary64 → Binary64) : Prop where
  special : ∀ {x y z : Binary64}, SpecialPower x y z → pow x y = z
  sign : ∀ {x y : Binary64}, x.isFinite = true → y.isFinite = true → pow x y ≠ nan →
    ((pow x y).isNegative = true ↔ x.isNegative = true ∧ y.OddInteger)

theorem negative_or_positive (hnan : y.isNaN = false) (hzero : y.isZero = false) : y.Negative ∨ y.Positive := by
  cases y with
  | nan => nomatch hnan
  | infinite b => cases b <;> simp only [Negative, Positive, or_true, true_or]
  | finite b rank => exact (lt_or_gt_of_ne ((isZero_eq_false_iff rfl).1 hzero)).imp (.inl ⟨rfl, ·⟩) (.inl ⟨rfl, ·⟩)

theorem eq_one_or_of_abs_value (hx : x.isFinite = true) (h : |x.value| = 1) : x = one ∨ x = one.neg := by
  have habs := same_one_iff.1 ((abs_same_one_iff hx).2 h)
  obtain ⟨a, r, rfl⟩ := exists_finite hx
  rw [← habs]
  cases a
  · exact .inl rfl
  · exact .inr rfl

namespace SpecialPower

theorem exists_zero (a : Bool) (hy : y.Negative ∨ y.Positive) : ∃ z, SpecialPower (zero a) y z := by
  by_cases hodd : y.OddInteger
  · exact hy.elim (fun h => ⟨_, zero_odd_negative a h hodd⟩) fun h => ⟨_, zero_odd_positive a h hodd⟩
  · exact hy.elim (fun h => ⟨_, zero_negative a h hodd⟩) fun h => ⟨_, zero_positive a h hodd⟩

theorem exists_infinite (a : Bool) (hy : y.Negative ∨ y.Positive) : ∃ z, SpecialPower (infinite a) y z := by
  by_cases hodd : y.OddInteger
  · exact hy.elim (fun h => ⟨_, infinite_odd_negative a h hodd⟩) fun h => ⟨_, infinite_odd_positive a h hodd⟩
  · exact hy.elim (fun h => ⟨_, infinite_negative a h hodd⟩) fun h => ⟨_, infinite_positive a h hodd⟩

theorem exists_infinite_exponent (hx : x.isFinite = true) (b : Bool) : ∃ z, SpecialPower x (infinite b) z := by
  rcases lt_trichotomy |x.value| 1 with hsmall | hone | hlarge
  · cases b
    · exact ⟨_, small_positive_infinite hx hsmall⟩
    · exact ⟨_, small_negative_infinite hx hsmall⟩
  · rcases eq_one_or_of_abs_value hx hone with h | h
    · exact ⟨_, h ▸ base_one _⟩
    · exact ⟨_, h ▸ minus_one_infinite b⟩
  · cases b
    · exact ⟨_, large_positive_infinite hx hlarge⟩
    · exact ⟨_, large_negative_infinite hx hlarge⟩

/-- **The list leaves nothing out** but the powers of finite numbers other than zero, and of negative ones only to whole
exponents. -/
theorem total (x y : Binary64) : (∃ z, SpecialPower x y z) ∨
    x.isFinite = true ∧ y.isFinite = true ∧ x.value ≠ 0 ∧ y.value ≠ 0 ∧ (x.value < 0 → ∃ i : ℤ, y.value = i) := by
  -- one comes first: it is the only base that has a number as its power to a NaN
  by_cases hone : x = one
  · exact .inl ⟨_, hone ▸ base_one y⟩
  cases hyzero : y.isZero with
  | true =>
    rw [eq_zero_of_isZero hyzero]
    exact .inl ⟨_, exponent_zero x _⟩
  | false =>
    cases hynan : y.isNaN with
    | true =>
      cases y with
      | nan => exact .inl ⟨_, exponent_nan hone⟩
      | infinite => nomatch hynan
      | finite => nomatch hynan
    | false =>
      have hsign := negative_or_positive hynan hyzero
      cases x with
      | nan => exact .inl ⟨_, base_nan hyzero⟩
      | infinite a => exact .inl (exists_infinite a hsign)
      | finite a r =>
        cases hxzero : (finite a r).isZero with
        | true =>
          rw [eq_zero_of_isZero hxzero]
          exact .inl (exists_zero a hsign)
        | false =>
          cases y with
          | nan => nomatch hynan
          | infinite b => exact .inl (exists_infinite_exponent rfl b)
          | finite b s =>
            by_cases hfraction : (finite a r).value < 0 → ∃ i : ℤ, (finite b s).value = i
            · exact .inr ⟨rfl, rfl, (isZero_eq_false_iff rfl).1 hxzero, (isZero_eq_false_iff rfl).1 hyzero, hfraction⟩
            · obtain ⟨hneg, hnone⟩ := Classical.not_imp.1 hfraction
              exact .inl ⟨_, negative_fraction rfl hneg rfl hnone⟩

end SpecialPower

/-! ## The power of the calculator -/

theorem isNegative_one : one.isNegative = false := by rw [one_eq, isNegative]

theorem isZero_one : one.isZero = false := by rw [one_eq, isZero, beq_eq_false_iff_ne]; decide

theorem ne_one_of_isNegative (h : x.isNegative = true) : x ≠ one := by
  intro hx
  rw [hx, isNegative_one] at h
  cases h

theorem zero_ne_one (negative : Bool) : zero negative ≠ one := by
  intro h
  have hzero := isZero_zero negative
  rw [h, isZero_one] at hzero
  cases hzero

theorem isOdd_of_isZero (h : x.isZero = true) : x.isOdd = false := by
  rw [eq_zero_of_isZero h, zero, isOdd, wholePart, quanta, sizeAt_zero, Nat.zero_div, Nat.zero_mod]
  exact Bool.and_false _

/-- Neither one nor a NaN to a power that is neither zero nor a NaN. -/
theorem pow_eq_properPow (hx : x.isNaN = false) (hone : x ≠ one) (hy : y.isNaN = false) (hzero : y.isZero = false) :
    x.pow y = properPow x y := by
  rw [pow, hzero, same_one_eq_false hone, hx, hy, Bool.or_self,
    if_neg Bool.false_ne_true, if_neg Bool.false_ne_true]

theorem isOdd_infinite (negative : Bool) : (infinite negative).isOdd = false := rfl

theorem properPow_infinite (x : Binary64) (b : Bool) :
    properPow x (infinite b) =
      if x.abs.same one then one else if x.abs.lt one = b then infinite false else zero false := rfl

theorem pow_zero_base (a : Bool) (hy : y.isNaN = false) (hzero : y.isZero = false) :
    (zero a).pow y = if y.isNegative then infinite (a && y.isOdd) else zero (a && y.isOdd) := by
  rw [pow_eq_properPow rfl (zero_ne_one a) hy hzero]
  cases y with
  | nan => nomatch hy
  | infinite b =>
    have hvalue : (zero a).value = 0 := (isZero_iff rfl).1 (isZero_zero a)
    have hsame : (zero a).abs.same one = false := by
      rw [← Bool.not_eq_true, abs_same_one_iff rfl, hvalue, abs_zero]
      norm_num
    have hlt : (zero a).abs.lt one = true := by
      rw [abs_lt_one_iff rfl, hvalue, abs_zero]
      norm_num
    rw [properPow_infinite, hsame, hlt, isOdd_infinite, Bool.and_false, if_neg Bool.false_ne_true]
    cases b <;> rfl
  | finite b rank => rw [Guarded.properPow_of_isFinite rfl rfl, isZero_zero, if_pos rfl]; rfl

theorem pow_infinite_base (a : Bool) (hy : y.isNaN = false) (hzero : y.isZero = false) :
    (infinite a).pow y = if y.isNegative then zero (a && y.isOdd) else infinite (a && y.isOdd) := by
  rw [pow_eq_properPow rfl (by rw [one_eq]; nofun) hy hzero]
  cases y with
  | nan => nomatch hy
  | infinite b =>
    have hsame : (infinite a).abs.same one = false := by rw [one_eq]; rfl
    have hlt : (infinite a).abs.lt one = false := by rw [one_eq]; rfl
    rw [properPow_infinite, hsame, hlt, isOdd_infinite, Bool.and_false, if_neg Bool.false_ne_true]
    cases b <;> rfl
  | finite b rank => rfl

theorem Negative.pow_zero (hy : y.Negative) (a : Bool) : (zero a).pow y = infinite (a && y.isOdd) := by
  rw [pow_zero_base a hy.kind.1 hy.kind.2.1, hy.kind.2.2, if_pos rfl]

theorem Positive.pow_zero (hy : y.Positive) (a : Bool) : (zero a).pow y = zero (a && y.isOdd) := by
  rw [pow_zero_base a hy.kind.1 hy.kind.2.1, hy.kind.2.2, if_neg Bool.false_ne_true]

theorem Negative.pow_infinite (hy : y.Negative) (a : Bool) : (infinite a).pow y = zero (a && y.isOdd) := by
  rw [pow_infinite_base a hy.kind.1 hy.kind.2.1, hy.kind.2.2, if_pos rfl]

theorem Positive.pow_infinite (hy : y.Positive) (a : Bool) : (infinite a).pow y = infinite (a && y.isOdd) := by
  rw [pow_infinite_base a hy.kind.1 hy.kind.2.1, hy.kind.2.2, if_neg Bool.false_ne_true]

theorem and_isOdd (a : Bool) (h : y.OddInteger) : (a && y.isOdd) = a := by
  rw [(isOdd_iff y).2 h, Bool.and_true]

theorem and_isOdd_of_not (a : Bool) (h : ¬ y.OddInteger) : (a && y.isOdd) = false := by
  rw [isOdd_eq_false h, Bool.and_false]

/-- A finite number to an infinite power grows or vanishes. -/
theorem pow_infinite_exponent (hx : x.isFinite = true) (hone : |x.value| ≠ 1) (b : Bool) :
    x.pow (infinite b) = if x.abs.lt one = b then infinite false else zero false := by
  have hne : x ≠ one := by
    intro hx
    rw [hx, value_one, abs_one] at hone
    exact hone rfl
  have hsame : x.abs.same one = false := by
    rw [← Bool.not_eq_true, abs_same_one_iff hx]
    exact hone
  rw [pow_eq_properPow (Guarded.isNaN_eq_false hx) hne rfl rfl, properPow_infinite, hsame, if_neg Bool.false_ne_true]

theorem pow_of_special {z : Binary64} (h : SpecialPower x y z) : x.pow y = z := by
  cases h with
  | exponent_zero _ b => rw [pow, isZero_zero, Bool.true_or, if_pos rfl]
  | base_one => rw [pow, same_one_iff.2 rfl, Bool.or_true, if_pos rfl]
  | base_nan hy => rw [pow, hy]; rfl
  | exponent_nan hx =>
    rw [pow, same_one_eq_false hx, show nan.isZero = false from rfl,
      Bool.or_self, if_neg Bool.false_ne_true, if_pos]
    exact Bool.or_true _
  | zero_odd_negative a hy hodd => rw [hy.pow_zero, and_isOdd a hodd]
  | zero_negative a hy hodd => rw [hy.pow_zero, and_isOdd_of_not a hodd]
  | zero_odd_positive a hy hodd => rw [hy.pow_zero, and_isOdd a hodd]
  | zero_positive a hy hodd => rw [hy.pow_zero, and_isOdd_of_not a hodd]
  | minus_one_infinite b =>
    have hne : one.neg ≠ one := ne_one_of_isNegative (by rw [one_eq, neg, isNegative, Bool.not_false])
    have hsame : one.neg.abs.same one = true := by rw [one_eq]; rfl
    rw [pow_eq_properPow (by rw [one_eq]; rfl) hne rfl rfl, properPow_infinite, hsame, if_pos rfl]
  | small_negative_infinite hx h => rw [pow_infinite_exponent hx h.ne, (abs_lt_one_iff hx).2 h]; rfl
  | large_negative_infinite hx h => rw [pow_infinite_exponent hx h.ne', abs_lt_one_eq_false hx h]; rfl
  | small_positive_infinite hx h => rw [pow_infinite_exponent hx h.ne, (abs_lt_one_iff hx).2 h]; rfl
  | large_positive_infinite hx h => rw [pow_infinite_exponent hx h.ne', abs_lt_one_eq_false hx h]; rfl
  | infinite_odd_negative a hy hodd => rw [hy.pow_infinite, and_isOdd a hodd]
  | infinite_negative a hy hodd => rw [hy.pow_infinite, and_isOdd_of_not a hodd]
  | infinite_odd_positive a hy hodd => rw [hy.pow_infinite, and_isOdd a hodd]
  | infinite_positive a hy hodd => rw [hy.pow_infinite, and_isOdd_of_not a hodd]
  | negative_fraction hx hneg hy hfraction =>
    have hone := ne_one_of_isNegative (isNegative_of_value_lt hneg)
    have hzero : y.isZero = false := by
      rw [isZero_eq_false_iff hy]
      exact fun h => hfraction ⟨0, by rw [h, Int.cast_zero]⟩
    have hintegral : y.isIntegral = false := Bool.eq_false_of_not_eq_true fun h => hfraction ((isIntegral_iff hy).1 h)
    rw [pow_eq_properPow (Guarded.isNaN_eq_false hx) hone (Guarded.isNaN_eq_false hy) hzero,
      Guarded.properPow_of_isFinite hx hy, (isZero_eq_false_iff hx).2 hneg.ne, isNegative_of_value_lt hneg, hintegral]
    rfl

theorem isNegative_withSign {z : Binary64} {negative : Bool} (h : z.withSign negative ≠ nan) :
    (z.withSign negative).isNegative = negative := by
  cases z with
  | nan => exact absurd rfl h
  | infinite => rfl
  | finite => rfl

/-- **A power is negative** only of a negative base to an odd exponent. -/
theorem isNegative_pow (hx : x.isFinite = true) (hy : y.isFinite = true) (hnan : x.pow y ≠ nan) :
    (x.pow y).isNegative = (x.isNegative && y.isOdd) := by
  cases hzero : y.isZero with
  | true => rw [pow, hzero, Bool.true_or, if_pos rfl, isNegative_one, isOdd_of_isZero hzero, Bool.and_false]
  | false =>
    by_cases hone : x = one
    · rw [hone, pow_of_special (.base_one y), isNegative_one, Bool.false_and]
    · rw [pow_eq_properPow (Guarded.isNaN_eq_false hx) hone (Guarded.isNaN_eq_false hy) hzero,
        Guarded.properPow_of_isFinite hx hy] at hnan ⊢
      cases hbase : x.isZero with
      | true => rw [if_pos rfl]; split <;> rfl
      | false =>
        rw [hbase, if_neg Bool.false_ne_true] at hnan
        rw [if_neg Bool.false_ne_true]
        by_cases hfraction : (x.isNegative && !y.isIntegral) = true
        · rw [if_pos hfraction] at hnan
          exact absurd rfl hnan
        · rw [if_neg hfraction] at hnan ⊢
          exact isNegative_withSign hnan

theorem isPower_pow : IsPower pow where
  special := pow_of_special
  sign hx hy hnan := by rw [isNegative_pow hx hy hnan, Bool.and_eq_true, isOdd_iff]

end Binary64
end Calculator
