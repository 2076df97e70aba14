import Calculator.Binary64.Arithmetic
import Calculator.Proofs.Binary64.Rounded
/-!
# Quotients

Division as IEEE 754 has it (`IsQuotient`): a row for every kind of operands that are no numbers or have no quotient,
and for the others the quotient of the values, rounded correctly.  Two operands have one quotient by these rows, and it
is what the calculator divides to (`isQuotient_iff`).
-/
namespace Calculator
namespace Binary64

/-- The quotient by IEEE 754.  If it is a number or an infinity, it is negative if just one of the operands is. -/
inductive IsQuotient : Binary64 → Binary64 → Binary64 → Prop where
  | nan_left (y : Binary64) : IsQuotient nan y nan
  | nan_right (x : Binary64) : IsQuotient x nan nan
  | infinite_infinite (a b : Bool) : IsQuotient (infinite a) (infinite b) nan
  | infinite_finite {y : Binary64} (a : Bool) (hy : y.isFinite = true) :
    IsQuotient (infinite a) y (infinite (a != y.isNegative))
  | finite_infinite {x : Binary64} (hx : x.isFinite = true) (b : Bool) :
    IsQuotient x (infinite b) (zero (x.isNegative != b))
  | zero_zero (a b : Bool) : IsQuotient (zero a) (zero b) nan
  | finite_zero {x : Binary64} (hx : x.isFinite = true) (hne : x.value ≠ 0) (b : Bool) :
    IsQuotient x (zero b) (infinite (x.isNegative != b))
  | finite_finite {x y z : Binary64} (hx : x.isFinite = true) (hy : y.isFinite = true) (hne : y.value ≠ 0)
    (h : IsRounded (x.isNegative != y.isNegative) (x.value / y.value) z) : IsQuotient x y z

variable {x y z : Binary64}

theorem eq_zero_of_isZero (h : x.isZero = true) : x = zero x.isNegative := by
  cases x with
  | nan => nomatch h
  | infinite => nomatch h
  | finite negative rank =>
    rw [isZero, beq_iff_eq] at h
    rw [isNegative, zero, Fin.ext (b := ⟨0, by decide⟩) h]

theorem isZero_eq_false_iff (hx : x.isFinite = true) : x.isZero = false ↔ x.value ≠ 0 := by
  rw [← Bool.not_eq_true, isZero_iff hx]

theorem isZero_zero (negative : Bool) : (zero negative).isZero = true := by
  rw [zero, isZero, beq_iff_eq]

theorem div_finite_zero (hx : x.isFinite = true) (hne : x.value ≠ 0) (b : Bool) :
    x.div (zero b) = infinite (x.isNegative != b) := by
  obtain ⟨a, r, rfl⟩ := exists_finite hx
  have hzero := isZero_zero b
  rw [zero] at hzero ⊢
  rw [div, if_pos hzero, (isZero_eq_false_iff hx).2 hne, if_neg Bool.false_ne_true, isNegative]

/-- **The quotient of finite numbers is rounded correctly.** -/
theorem isRounded_div (hx : x.isFinite = true) (hy : y.isFinite = true) (hne : y.value ≠ 0) :
    IsRounded (x.isNegative != y.isNegative) (x.value / y.value) (x.div y) := by
  have hzero := (isZero_eq_false_iff hy).2 hne
  have hquanta : 0 < y.quanta := by
    rw [← abs_pos, abs_value] at hne
    refine Nat.pos_of_ne_zero fun h => ?_
    rw [h, Nat.cast_zero, zero_div] at hne
    exact lt_irrefl _ hne
  have hvalue : x.value / y.value = signed (x.isNegative != y.isNegative)
      ((x.quanta * quantaPerUnit : Nat) / y.quanta / quantaPerUnit) := by
    rw [value_eq x, value_eq y, signed_div_signed, div_div_div_cancel_right₀ cast_quantaPerUnit_ne_zero, Nat.cast_mul,
      div_right_comm, mul_div_cancel_right₀ _ cast_quantaPerUnit_ne_zero]
  have hdiv : x.div y = ofQuotient (x.isNegative != y.isNegative) (x.quanta * quantaPerUnit) y.quanta := by
    obtain ⟨a, r, rfl⟩ := exists_finite hx
    obtain ⟨b, s, rfl⟩ := exists_finite hy
    exact if_neg (ne_true_of_eq_false hzero)
  rw [hvalue, hdiv]
  exact isRounded_ofQuotient _ _ hquanta

theorem isQuotient_div (x y : Binary64) : IsQuotient x y (x.div y) := by
  cases x with
  | nan => exact .nan_left y
  | infinite a =>
    cases y with
    | nan => exact .nan_right _
    | infinite b => exact .infinite_infinite a b
    | finite b s => exact .infinite_finite a rfl
  | finite a r =>
    cases y with
    | nan => exact .nan_right _
    | infinite b => exact .finite_infinite rfl b
    | finite b s =>
      cases hy : (finite b s).isZero with
      | false =>
        have hne := (isZero_eq_false_iff rfl).1 hy
        exact .finite_finite rfl rfl hne (isRounded_div rfl rfl hne)
      | true =>
        rw [eq_zero_of_isZero hy]
        cases hx : (finite a r).isZero with
        | false =>
          have hne := (isZero_eq_false_iff rfl).1 hx
          rw [div_finite_zero rfl hne]
          exact .finite_zero rfl hne b
        | true =>
          rw [eq_zero_of_isZero hx]
          exact .zero_zero a b

theorem IsQuotient.eq_div (h : IsQuotient x y z) : z = x.div y := by
  cases h with
  | nan_left => rfl
  | nan_right => cases x <;> rfl
  | infinite_infinite => rfl
  | infinite_finite a hy =>
    obtain ⟨_, _, rfl⟩ := exists_finite hy
    rfl
  | finite_infinite hx b =>
    obtain ⟨_, _, rfl⟩ := exists_finite hx
    rfl
  | zero_zero => rfl
  | finite_zero hx hne b => exact (div_finite_zero hx hne b).symm
  | finite_finite hx hy hne h => exact h.unique (isRounded_div hx hy hne)

/-- **Two doubles have one quotient**, and it is what they are divided to. -/
theorem isQuotient_iff : IsQuotient x y z ↔ z = x.div y :=
  ⟨IsQuotient.eq_div, fun h => h ▸ isQuotient_div x y⟩

end Binary64
end Calculator
