import Calculator.Decimal.Shortest
import Calculator.Proofs.Decimal.Value
/-!
# The shortest decimal reads back

Whatever grid has given it, and also if none has, the decimal that is written for a double rounds to the rank of that
double (`Decimal.roundsTo_shortest`).
-/
namespace Calculator
namespace Decimal

variable {rank num den c : Nat}

theorem roundsTo_of_rounds (hrank : 0 < rank) (hden : 0 < den) (h : rounds rank num den c = true) :
    RoundsTo (c * num / den) rank := by
  have hdenq : (0 : ℚ) < den := Nat.cast_pos.2 hden
  have hlow : sizeAt (rank - 1) + sizeAt rank = middle (rank - 1) := by rw [middle, Nat.sub_add_cancel hrank]
  have hhigh : sizeAt rank + sizeAt (rank + 1) = middle rank := rfl
  have hpoint : (2 : ℚ) * (c * num / den) * den = (2 * c * num : Nat) := by
    push_cast
    field_simp
  -- comparisons with the middles, multiplied by the denominator
  have hlt : ∀ m : Nat, m * den < 2 * c * num → (m : ℚ) < 2 * (c * num / den) := by
    intro m hm
    rw [← mul_lt_mul_iff_left₀ hdenq, hpoint]
    exact_mod_cast hm
  have hgt : ∀ m : Nat, 2 * c * num < m * den → 2 * (c * num / den) < (m : ℚ) := by
    intro m hm
    rw [← mul_lt_mul_iff_left₀ hdenq, hpoint]
    exact_mod_cast hm
  have heq : ∀ m : Nat, m * den = 2 * c * num → (m : ℚ) = 2 * (c * num / den) := by
    intro m hm
    rw [← mul_left_inj' hdenq.ne', hpoint]
    exact_mod_cast hm
  simp only [rounds, hlow, hhigh] at h
  split at h
  · rename_i heven
    simp only [Bool.and_eq_true, decide_eq_true_eq] at h
    constructor
    · intro _
      rcases Nat.lt_or_eq_of_le h.1 with hlow | hlow
      · exact .inl (hlt _ hlow)
      · exact .inr ⟨heq _ hlow, heven⟩
    · rcases Nat.lt_or_eq_of_le h.2 with hhigh | hhigh
      · exact .inl (hgt _ hhigh)
      · exact .inr ⟨(heq _ hhigh.symm).symm, heven⟩
  · simp only [Bool.and_eq_true, decide_eq_true_eq] at h
    exact ⟨fun _ => .inl (hlt _ h.1), .inl (hgt _ h.2)⟩

/-! ## Grids -/

theorem quanta_onGrid (c : Nat) (exponent : Int) : (⟨c, exponent⟩ : Decimal).quanta =
    c * (quantaPerUnit * Nat.pow 10 exponent.toNat : Nat) / (Nat.pow 10 (-exponent).toNat : Nat) := by
  cases exponent with
  | ofNat up =>
    rw [quanta, value_ofNat, Nat.pow_eq, Nat.pow_eq]
    simp only [Int.ofNat_eq_natCast, Int.toNat_natCast, Int.toNat_neg_natCast, Nat.pow_zero, Nat.cast_one, div_one]
    push_cast
    rw [mul_assoc, mul_comm (10 ^ up : ℚ)]
  | negSucc k =>
    rw [quanta, value_negSucc, Nat.pow_eq, Nat.pow_eq, Int.toNat_negSucc, Int.neg_negSucc, Nat.pow_zero, Nat.mul_one,
      div_mul_eq_mul_div]
    rfl

theorem rounds_of_nearestOnGrid? (h : nearestOnGrid? rank num den = some c) : rounds rank num den c = true := by
  unfold nearestOnGrid? at h
  cases hbelow : rounds rank num den (sizeAt rank * den / num) with
  | true =>
    cases habove : rounds rank num den (sizeAt rank * den / num + 1) with
    | true =>
      simp only [hbelow, habove, Option.some.injEq] at h
      split at h
      · rw [← h, hbelow]
      · rw [← h, habove]
    | false =>
      simp only [hbelow, habove, Option.some.injEq] at h
      rw [← h, hbelow]
  | false =>
    cases habove : rounds rank num den (sizeAt rank * den / num + 1) with
    | true =>
      simp only [hbelow, habove, Option.some.injEq] at h
      rw [← h, habove]
    | false =>
      simp only [hbelow, habove] at h
      cases h

theorem roundsTo_of_onGrid? (hrank : 0 < rank) {exponent : Int} {d : Decimal} (h : onGrid? rank exponent = some d) :
    RoundsTo d.quanta rank := by
  obtain ⟨c, hc, rfl⟩ := Option.map_eq_some_iff.1 h
  rw [quanta_onGrid]
  exact roundsTo_of_rounds hrank (Nat.pow_pos (by decide)) (rounds_of_nearestOnGrid? hc)

theorem quanta_of_pow {s a k : Nat} (h : a * quantaPerUnit = 10 ^ (k + 1)) :
    (⟨s * a, Int.negSucc k⟩ : Decimal).quanta = s := by
  have hne : ((10 ^ (k + 1) : Nat) : ℚ) ≠ 0 := Nat.cast_ne_zero.2 (Nat.pow_pos (by decide)).ne'
  rw [quanta, value_negSucc, div_mul_eq_mul_div, div_eq_iff hne, ← Nat.cast_mul, Nat.mul_assoc, h, Nat.cast_mul]

theorem quanta_exact (rank : Nat) : (exact rank).quanta = sizeAt rank := by
  have hpow : Nat.pow 5 1074 * quantaPerUnit = 10 ^ (1073 + 1) := by decide +kernel
  rw [exact]
  generalize Nat.pow 5 1074 = a at hpow ⊢
  exact @quanta_of_pow (sizeAt rank) a 1073 hpow

/-- **The decimal that is written for a positive double rounds to its rank.** -/
theorem roundsTo_shortest (hrank : 0 < rank) : RoundsTo (shortest rank).quanta rank := by
  rw [shortest]
  cases h : (List.range 17).findSome? fun (more : Nat) => onGrid? rank (leadingExponent rank - more) with
  | some d =>
    obtain ⟨more, -, hgrid⟩ := List.exists_of_findSome?_eq_some h
    exact roundsTo_of_onGrid? hrank hgrid
  | none =>
    rw [Option.getD_none, quanta_exact]
    exact .size rank

end Decimal
end Calculator
