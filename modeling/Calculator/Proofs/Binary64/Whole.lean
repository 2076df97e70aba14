import Calculator.Binary64.Arithmetic
import Calculator.Platform
import Calculator.Proofs.Binary64.Nearest
/-!
# Whole numbers among the doubles

Below `2 ^ 53` every whole number is a double, and from `2 ^ 52` on every double is a whole number.  So a whole number
is rounded to a whole number, one that is small enough to itself.  What is less than a unit above the last finite double
is still rounded to a finite one (`isFinite_ofInt`), so a whole number and one make a finite whole number
(`exists_add_one`).  At such a sum the gamma function has the factorial, exactly where that is a double
(`factorial_of_lt`).
-/
namespace Calculator

variable {rank other m q : Nat}

/-! ## Sizes -/

theorem sizeAt_lt (rank : Nat) : sizeAt rank < 2 ^ 53 * 2 ^ doublings rank := by
  obtain ⟨d, m, rfl, h⟩ := exists_significand rank
  rw [h.sizeAt_eq, h.doublings_eq]
  exact Nat.mul_lt_mul_of_pos_right h.1 (Nat.two_pow_pos d)

theorem two_pow_doublings_dvd_sizeAt (rank : Nat) : 2 ^ doublings rank ∣ sizeAt rank :=
  ⟨_, Nat.mul_comm _ _⟩

/-- **A large double is a multiple of its spacing**: one of `2 ^ 52` steps of `2 ^ k` or more is a whole number of
them. -/
theorem two_pow_dvd_sizeAt {k : Nat} (h : binade * 2 ^ k ≤ sizeAt rank) : 2 ^ k ∣ sizeAt rank := by
  have hpow : 2 ^ (52 + k) < 2 ^ (53 + doublings rank) := by
    rw [Nat.pow_add, Nat.pow_add 2 53]
    exact Nat.lt_of_le_of_lt h (sizeAt_lt rank)
  have hdoublings : k ≤ doublings rank := by
    have := (Nat.pow_lt_pow_iff_right (by decide)).1 hpow
    omega
  exact Nat.dvd_trans (Nat.pow_dvd_pow 2 hdoublings) (two_pow_doublings_dvd_sizeAt rank)

/-- **Fewer than `2 ^ 53` steps of `2 ^ k` are the size of a double.** -/
theorem exists_sizeAt_eq (k : Nat) (h : m < 2 * binade) : ∃ rank, sizeAt rank = m * 2 ^ k := by
  rcases Nat.eq_zero_or_pos m with rfl | hpos
  · exact ⟨0, by rw [sizeAt_zero, Nat.zero_mul]⟩
  refine ⟨rankBelow (m * 2 ^ k), ?_⟩
  rw [sizeAt_rankBelow]
  -- the spacing at this size is a step at most
  have hlog : (m * 2 ^ k).log2 < 53 + k := by
    rw [Nat.log2_lt (Nat.mul_ne_zero hpos.ne' (Nat.two_pow_pos k).ne'), Nat.pow_add]
    exact Nat.mul_lt_mul_of_pos_right h (Nat.two_pow_pos k)
  have hspacing : 2 ^ ((m * 2 ^ k).log2 - 52) ∣ 2 ^ k := Nat.pow_dvd_pow 2 (by omega)
  exact Nat.div_mul_cancel (Nat.dvd_trans hspacing (Nat.dvd_mul_left _ _))

/-- The quanta in one as a power. -/
theorem quantaPerUnit_eq : quantaPerUnit = 2 ^ 1074 := by decide +kernel

theorem quantaPerUnit_pos : 0 < quantaPerUnit := by decide +kernel

theorem cast_quantaPerUnit_pos : (0 : ℚ) < quantaPerUnit := Nat.cast_pos.2 quantaPerUnit_pos

theorem cast_quantaPerUnit_ne_zero : (quantaPerUnit : ℚ) ≠ 0 := cast_quantaPerUnit_pos.ne'

theorem exists_sizeAt_whole (h : m < 2 * binade) : ∃ rank, sizeAt rank = m * quantaPerUnit := by
  rw [quantaPerUnit_eq]
  exact exists_sizeAt_eq 1074 h

theorem quantaPerUnit_dvd_sizeAt (h : binade * quantaPerUnit ≤ sizeAt rank) : quantaPerUnit ∣ sizeAt rank := by
  rw [quantaPerUnit_eq] at h ⊢
  exact two_pow_dvd_sizeAt h

/-! ## Rounding a number of quanta -/

theorem sizeAt_nearestRank_sizeAt (rank : Nat) : sizeAt (nearestRank (sizeAt rank) 1) = sizeAt rank := by
  have hrounds : RoundsTo ((sizeAt rank : ℚ) / (1 : Nat)) rank := by
    rw [Nat.cast_one, div_one]
    exact .size rank
  rw [nearestRank_of_roundsTo Nat.one_pos hrounds]

theorem sizeAt_le_sizeAt_nearestRank (h : sizeAt other ≤ q) : sizeAt other ≤ sizeAt (nearestRank q 1) := by
  have hrounds := roundsTo_nearestRank q Nat.one_pos
  rw [Nat.cast_one, div_one] at hrounds
  exact sizeAt_strictMono.monotone (hrounds.le_of_sizeAt_le (Nat.cast_le.2 h))

theorem nearestRank_le (h : 2 * q < middle rank) : nearestRank q 1 ≤ rank := by
  have hrounds := roundsTo_nearestRank q Nat.one_pos
  rw [Nat.cast_one, div_one] at hrounds
  by_contra hlt
  have hmiddle : middle rank ≤ middle (nearestRank q 1 - 1) := middle_strictMono.monotone (by omega)
  have hle : (middle (nearestRank q 1 - 1) : ℚ) ≤ 2 * q := (hrounds.above (by omega)).elim le_of_lt fun h => h.1.le
  have : middle (nearestRank q 1 - 1) ≤ 2 * q := by exact_mod_cast hle
  omega

theorem sizeAt_nearestRank_of_lt (h : m < 2 * binade) :
    sizeAt (nearestRank (m * quantaPerUnit) 1) = m * quantaPerUnit := by
  obtain ⟨rank, hrank⟩ := exists_sizeAt_whole h
  rw [← hrank, sizeAt_nearestRank_sizeAt]

theorem le_sizeAt_nearestRank_of_le (h : binade ≤ m) :
    binade * quantaPerUnit ≤ sizeAt (nearestRank (m * quantaPerUnit) 1) := by
  obtain ⟨rank, hrank⟩ := @exists_sizeAt_whole binade (by decide)
  have hle : sizeAt rank ≤ m * quantaPerUnit := by
    rw [hrank]
    exact Nat.mul_le_mul_right _ h
  rw [← hrank]
  exact sizeAt_le_sizeAt_nearestRank hle

/-- **A positive number of units** is rounded to a positive number of them. -/
theorem sizeAt_nearestRank_units (m : Nat) : quantaPerUnit ∣ sizeAt (nearestRank ((m + 1) * quantaPerUnit) 1) ∧
    0 < sizeAt (nearestRank ((m + 1) * quantaPerUnit) 1) := by
  by_cases hsmall : m + 1 < 2 * binade
  · rw [sizeAt_nearestRank_of_lt hsmall]
    exact ⟨Nat.dvd_mul_left _ _, Nat.mul_pos m.succ_pos quantaPerUnit_pos⟩
  · have hlarge : binade ≤ m + 1 := by omega
    have hsize := le_sizeAt_nearestRank_of_le hlarge
    have hpos : 0 < binade * quantaPerUnit := Nat.mul_pos (by decide) quantaPerUnit_pos
    exact ⟨quantaPerUnit_dvd_sizeAt hsize, Nat.lt_of_lt_of_le hpos hsize⟩

namespace Binary64

variable {x : Binary64} {negative : Bool}

/-! ## Whole parts -/

theorem wholePart_mul {rank : Fin rankLimit} (h : (finite negative rank).isIntegral = true) :
    (finite negative rank).wholePart * quantaPerUnit = sizeAt rank := by
  have hmod : sizeAt rank % quantaPerUnit = 0 := eq_of_beq h
  exact Nat.div_mul_cancel (Nat.dvd_of_mod_eq_zero hmod)

/-! ## Rounding stays finite -/

theorem isFinite_atRank (h : rank < rankLimit) : (atRank negative rank).isFinite = true := by
  rw [atRank, dif_pos h]
  rfl

theorem quanta_le (x : Binary64) : x.quanta ≤ sizeAt (rankLimit - 1) := by
  cases x with
  | nan => exact Nat.zero_le _
  | infinite => exact Nat.zero_le _
  | finite negative rank => exact sizeAt_strictMono.monotone (Nat.le_sub_one_of_lt rank.isLt)

/-- **A unit more than a finite magnitude** is not enough to leave the range. -/
theorem nearestRank_lt (h : q ≤ x.quanta + quantaPerUnit) : nearestRank q 1 < rankLimit := by
  refine Nat.lt_of_le_of_lt (@nearestRank_le (rankLimit - 1) _ ?_) (by decide)
  have hquanta := quanta_le x
  have hstep : 2 * (sizeAt (rankLimit - 1) + quantaPerUnit) < middle (rankLimit - 1) := by decide +kernel
  omega

theorem isFinite_ofInt {i : Int} (h : i.natAbs * quantaPerUnit ≤ x.quanta + quantaPerUnit) :
    (ofInt i).isFinite = true :=
  isFinite_atRank (nearestRank_lt h)

/-! ## The next whole number -/

theorem signedQuanta_of_nonneg (hnonneg : x.lt (zero false) = false) : x.signedQuanta = x.quanta := by
  cases x with
  | nan => rfl
  | infinite negative => cases negative <;> rfl
  | finite negative rank =>
    cases negative with
    | false => rfl
    | true =>
      -- the minus zero
      have hplace : ¬ -(rank.val : Int) < 0 := of_decide_eq_false hnonneg
      have hrank : rank.val = 0 := by omega
      simp only [signedQuanta, quanta, hrank, sizeAt_zero]
      rfl

theorem one_eq : one = finite false ⟨0x3FF0000000000000, by decide⟩ := by decide +kernel

theorem sizeAt_one : sizeAt 0x3FF0000000000000 = quantaPerUnit := by decide +kernel

theorem add_one_eq (hfinite : x.isFinite = true) (hnonneg : x.lt (zero false) = false) :
    x.add one = atRank false (nearestRank (x.quanta + quantaPerUnit) 1) := by
  have hpos := quantaPerUnit_pos
  have hvalue : x.signedQuanta + one.signedQuanta = ((x.quanta + quantaPerUnit : Nat) : Int) := by
    rw [signedQuanta_of_nonneg hnonneg, one_eq, Nat.cast_add, ← sizeAt_one]
    rfl
  cases x with
  | nan => nomatch hfinite
  | infinite => nomatch hfinite
  | finite negative rank =>
    rw [one_eq] at hvalue ⊢
    simp only [add, hvalue]
    rw [if_neg (by omega), decide_eq_false (by omega), Int.natAbs_natCast]
    rfl

theorem quanta_of_isIntegral (h : x.isIntegral = true) : x.quanta = x.wholePart * quantaPerUnit := by
  cases x with
  | nan => nomatch h
  | infinite => nomatch h
  | finite negative rank => exact (wholePart_mul h).symm

theorem isFinite_of_isIntegral (h : x.isIntegral = true) : x.isFinite = true := by
  cases x with
  | nan => nomatch h
  | infinite => nomatch h
  | finite => rfl

theorem add_one_of_isIntegral (h : x.isIntegral = true) (hnonneg : x.lt (zero false) = false) :
    x.add one = atRank false (nearestRank ((x.wholePart + 1) * quantaPerUnit) 1) := by
  rw [add_one_eq (isFinite_of_isIntegral h) hnonneg, quanta_of_isIntegral h, Nat.add_one_mul]

theorem add_one_eq_ofInt (h : x.isIntegral = true) (hnonneg : x.lt (zero false) = false) :
    x.add one = ofInt (x.wholePart + 1 : Nat) := by
  have hsign : decide (((x.wholePart + 1 : Nat) : Int) < 0) = false := decide_eq_false (by omega)
  rw [add_one_of_isIntegral h hnonneg, ofInt, hsign]
  rfl

theorem isIntegral_finite {rank : Fin rankLimit} (h : quantaPerUnit ∣ sizeAt rank) :
    (finite negative rank).isIntegral = true :=
  beq_iff_eq.2 (Nat.mod_eq_zero_of_dvd h)

/-- **A whole number that is not negative and one** make a positive whole number, which is in range. -/
theorem exists_add_one (h : x.isIntegral = true) (hnonneg : x.lt (zero false) = false) :
    ∃ rank, x.add one = finite false rank ∧ (finite false rank).isIntegral = true ∧
      (finite false rank).isZero = false := by
  have hrank : nearestRank ((x.wholePart + 1) * quantaPerUnit) 1 < rankLimit :=
    nearestRank_lt (by rw [quanta_of_isIntegral h, Nat.add_one_mul])
  obtain ⟨hdvd, hpos⟩ := sizeAt_nearestRank_units x.wholePart
  refine ⟨⟨_, hrank⟩, by rw [add_one_of_isIntegral h hnonneg, atRank, dif_pos hrank], isIntegral_finite hdvd, ?_⟩
  refine beq_eq_false_iff_ne.2 fun hzero : nearestRank ((x.wholePart + 1) * quantaPerUnit) 1 = 0 => ?_
  rw [hzero, sizeAt_zero] at hpos
  exact Nat.lt_irrefl 0 hpos

/-- **Where the factorial is a double** it is the value, on any platform. -/
theorem factorial_of_lt [Platform] (h : x.isIntegral = true) (hnonneg : x.lt (zero false) = false)
    (hsmall : x.wholePart < Gamma.lastExact) : x.factorial = ofInt (natFactorial x.wholePart) := by
  have hfinite : ∀ n < Gamma.lastExact, (ofInt (natFactorial n)).isFinite = true := by decide +kernel
  have hvalue : Platform.gamma (x.add one) = ofInt (natFactorial x.wholePart) := by
    rw [add_one_eq_ofInt h hnonneg, Platform.gamma_exact _ hsmall]
  have hrange := hfinite _ hsmall
  cases x with
  | nan => nomatch h
  | infinite => nomatch h
  | finite negative rank =>
    rw [factorial, hnonneg, h, hvalue]
    revert hrange
    cases ofInt (natFactorial (finite negative rank).wholePart) with
    | infinite => nofun
    | nan => exact fun _ => rfl
    | finite => exact fun _ => rfl

example [Platform] : (ofInt 5).factorial = ofInt 120 := by
  have hwhole : (ofInt 5).wholePart = 5 := by decide +kernel
  rw [factorial_of_lt (by decide +kernel) (by decide +kernel) (by rw [hwhole]; decide), hwhole]
  rfl

end Binary64
end Calculator
