import Calculator.Binary64.Integral
import Calculator.Proofs.Binary64.Distance
import Mathlib.Data.Nat.Prime.Basic
/-!
# Ranks on a decimal grid

The numbers with so many decimal places form a grid.  A size is taken to the nearest step of the grid, and from there to
the nearest rank (`gridRank`).  A size that is on the grid keeps its rank (`gridRank_of_dvd`), so no finite size leaves
the range (`gridRank_lt`); larger sizes do not come out below smaller ones (`gridRank_mono`); and the rank that comes
out is taken to itself (`gridRank_gridRank`), although its size need not be on the grid.
-/
namespace Calculator

open Binary64 (roundHalfUp)

variable {num den k places rank other : Nat}

/-! ## Half up -/

theorem roundHalfUp_eq_iff (hden : 0 < den) :
    roundHalfUp num den = k ↔ (k : ℚ) - 1 / 2 ≤ num / den ∧ (num / den : ℚ) < k + 1 / 2 := by
  have hdenq : (0 : ℚ) < den := Nat.cast_pos.2 hden
  have htwice : 0 < 2 * den := Nat.mul_pos two_pos hden
  have hlow : (k : ℚ) - 1 / 2 ≤ num / den ↔ k * (2 * den) ≤ 2 * num + den := by
    rw [le_div_iff₀ hdenq, ← Nat.cast_le (α := ℚ)]
    push_cast
    constructor <;> intro h <;> linarith
  have hhigh : (num / den : ℚ) < k + 1 / 2 ↔ 2 * num + den < (k + 1) * (2 * den) := by
    rw [div_lt_iff₀ hdenq, ← Nat.cast_lt (α := ℚ)]
    push_cast
    constructor <;> intro h <;> linarith
  rw [hlow, hhigh, ← Nat.le_div_iff_mul_le htwice, ← Nat.div_lt_iff_lt_mul htwice, Nat.lt_succ_iff, roundHalfUp,
    and_comm, ← le_antisymm_iff]

theorem roundHalfUp_mul (n : Nat) (hden : 0 < den) : roundHalfUp (n * den) den = n := by
  rw [roundHalfUp_eq_iff hden, Nat.cast_mul, mul_div_cancel_right₀ _ (Nat.cast_ne_zero.2 hden.ne')]
  constructor <;> linarith

theorem roundHalfUp_mono (den : Nat) : Monotone fun num => roundHalfUp num den := fun _ _ h =>
  Nat.div_le_div_right (Nat.add_le_add_right (Nat.mul_le_mul_left 2 h) den)

/-! ## The nearest rank -/

namespace RoundsTo

variable {p q : ℚ}

/-- No rank is nearer than the one that a number rounds to. -/
theorem dist_le (h : RoundsTo q rank) (other : Nat) : |(sizeAt rank : ℚ) - q| ≤ |sizeAt other - q| := by
  rcases eq_or_ne other rank with rfl | hne
  · exact le_rfl
  · exact (h.dist_lt_or_tie hne).elim le_of_lt fun htie => htie.1.le

/-- A larger number rounds to no smaller rank. -/
theorem mono (hpq : p ≤ q) (hp : RoundsTo p rank) (hq : RoundsTo q other) : rank ≤ other := by
  rw [hp.le_iff]
  rcases hpq.lt_or_eq with hlt | rfl
  · exact .inl (lt_of_lt_of_le (by linarith) hq.bounds.2.1)
  · exact hq.below

end RoundsTo

/-! ## Steps of the grid -/

/-- A size in steps of the grid. -/
def onGrid (places rank : Nat) : ℚ := sizeAt rank * 10 ^ places / quantaPerUnit

/-- The nearest whole number of steps of the grid. -/
def gridSteps (places rank : Nat) : Nat := roundHalfUp (sizeAt rank * 10 ^ places) quantaPerUnit

/-- The rank nearest to that number of steps. -/
def gridRank (places rank : Nat) : Nat := nearestRank (gridSteps places rank * quantaPerUnit) (10 ^ places)

theorem gridSteps_eq_iff :
    gridSteps places rank = k ↔ (k : ℚ) - 1 / 2 ≤ onGrid places rank ∧ onGrid places rank < k + 1 / 2 := by
  rw [gridSteps, roundHalfUp_eq_iff quantaPerUnit_pos, onGrid, Nat.cast_mul, Nat.cast_pow, Nat.cast_ofNat]

theorem roundsTo_gridRank (places rank : Nat) :
    RoundsTo (gridSteps places rank * quantaPerUnit / 10 ^ places) (gridRank places rank) := by
  have hpow : 0 < 10 ^ places := Nat.pow_pos (by decide)
  have hround := roundsTo_nearestRank (gridSteps places rank * quantaPerUnit) hpow
  rwa [Nat.cast_mul, Nat.cast_pow, Nat.cast_ofNat] at hround

/-- **The rank that comes out is nearest to the grid**: no other size is nearer to the whole number of steps. -/
theorem dist_onGrid_le (places rank other : Nat) :
    |onGrid places (gridRank places rank) - gridSteps places rank| ≤ |onGrid places other - gridSteps places rank| := by
  have hstep : (0 : ℚ) < 10 ^ places / quantaPerUnit := div_pos (pow_pos (by norm_num) _) cast_quantaPerUnit_pos
  have hscale : ∀ r, |onGrid places r - gridSteps places rank| =
      |(sizeAt r : ℚ) - gridSteps places rank * quantaPerUnit / 10 ^ places| * (10 ^ places / quantaPerUnit) := by
    intro r
    have hpow : (10 : ℚ) ^ places ≠ 0 := pow_ne_zero _ (by norm_num)
    rw [← abs_of_pos hstep, ← abs_mul, sub_mul, div_mul_div_cancel₀ hpow, ← mul_div_assoc,
      mul_div_cancel_right₀ _ cast_quantaPerUnit_ne_zero, onGrid]
  rw [hscale, hscale]
  exact mul_le_mul_of_nonneg_right ((roundsTo_gridRank places rank).dist_le other) hstep.le

/-! ## On the grid -/

theorem gridSteps_of_dvd (h : quantaPerUnit ∣ sizeAt rank * 10 ^ places) :
    gridSteps places rank * quantaPerUnit = sizeAt rank * 10 ^ places := by
  obtain ⟨n, hn⟩ := h
  rw [gridSteps, hn, Nat.mul_comm quantaPerUnit n, roundHalfUp_mul n quantaPerUnit_pos]

/-- **A size on the grid keeps its rank.** -/
theorem gridRank_of_dvd (h : quantaPerUnit ∣ sizeAt rank * 10 ^ places) : gridRank places rank = rank := by
  have hpow : 0 < 10 ^ places := Nat.pow_pos (by decide)
  rw [gridRank, gridSteps_of_dvd h]
  refine nearestRank_of_roundsTo hpow ?_
  rw [Nat.cast_mul, mul_div_cancel_right₀ _ (Nat.cast_ne_zero.2 hpow.ne')]
  exact .size rank

/-- With so many places every size is on the grid. -/
theorem quantaPerUnit_dvd_mul_pow (h : Binary64.exactPlaces ≤ places) (n : Nat) : quantaPerUnit ∣ n * 10 ^ places := by
  refine Nat.dvd_mul_left_of_dvd ?_ n
  obtain ⟨more, rfl⟩ := Nat.exists_eq_add_of_le h
  rw [Nat.pow_add]
  exact Nat.dvd_mul_right_of_dvd (by decide +kernel) _

theorem gridRank_mono (places : Nat) : Monotone (gridRank places) := by
  intro a b hab
  have hsize : sizeAt a * 10 ^ places ≤ sizeAt b * 10 ^ places :=
    Nat.mul_le_mul_right _ (sizeAt_strictMono.monotone hab)
  have hsteps : (gridSteps places a : ℚ) ≤ gridSteps places b := Nat.cast_le.2 (roundHalfUp_mono _ hsize)
  refine RoundsTo.mono ?_ (roundsTo_gridRank places a) (roundsTo_gridRank places b)
  have hunit : (0 : ℚ) ≤ quantaPerUnit := Nat.cast_nonneg _
  exact div_le_div_of_nonneg_right (mul_le_mul_of_nonneg_right hsteps hunit) (pow_nonneg (by norm_num) _)

/-- The last finite double is a whole number, which is on every grid. -/
theorem gridRank_lt (places : Nat) (h : rank < rankLimit) : gridRank places rank < rankLimit := by
  have hlast : gridRank places (rankLimit - 1) = rankLimit - 1 :=
    gridRank_of_dvd (Nat.dvd_mul_right_of_dvd (quantaPerUnit_dvd_sizeAt (by decide +kernel)) _)
  have hle : gridRank places rank ≤ gridRank places (rankLimit - 1) := gridRank_mono places (Nat.le_sub_one_of_lt h)
  rw [hlast] at hle
  exact Nat.lt_of_le_of_lt hle (by decide)

/-! ## Twice -/

theorem places_eq_zero_of_dvd (h : 10 ^ places ∣ quantaPerUnit) : places = 0 := by
  by_contra hplaces
  have hfive : 5 ∣ quantaPerUnit := Nat.dvd_trans (dvd_pow (by decide : 5 ∣ 10) hplaces) h
  rw [quantaPerUnit_eq] at hfive
  exact absurd (Nat.prime_five.dvd_of_dvd_pow hfive) (by decide)

/-- A size between two whole numbers has neighbours that are half a unit away at most. -/
theorem two_mul_spacing_le_of_half {k : Nat} (h : 2 * sizeAt rank + quantaPerUnit = 2 * (k * quantaPerUnit)) :
    2 * 2 ^ doublings rank ≤ quantaPerUnit := by
  have hdoublings : doublings rank + 1 ≤ 1074 := by
    refine Nat.lt_of_not_le fun hle => ?_
    have hunit : quantaPerUnit ∣ 2 ^ doublings rank :=
      ⟨2 ^ (doublings rank - 1074), by rw [quantaPerUnit_eq, ← Nat.pow_add, Nat.add_sub_of_le hle]⟩
    obtain ⟨c, hc⟩ := Nat.dvd_trans hunit (two_pow_doublings_dvd_sizeAt rank)
    have hodd : (2 * c + 1) * quantaPerUnit = 2 * k * quantaPerUnit := by
      rw [Nat.add_mul, Nat.mul_assoc, Nat.mul_comm c, ← hc, Nat.one_mul, h, Nat.mul_assoc]
    have := Nat.eq_of_mul_eq_mul_right quantaPerUnit_pos hodd
    omega
  rw [← Nat.pow_succ', quantaPerUnit_eq]
  exact pow_le_pow_right₀ one_le_two hdoublings

/-- The size before and the size that comes out do not lie half a step on either side of the grid.  They would be a step
apart, and no step but a unit is a whole number of quanta; but then there is a size between them. -/
theorem not_astride (hbefore : onGrid places rank = gridSteps places rank - 1 / 2)
    (hbehind : onGrid places (gridRank places rank) = gridSteps places rank + 1 / 2) : False := by
  have hunit := cast_quantaPerUnit_pos
  have hdist := dist_onGrid_le places rank (rank + 1)
  rw [hbehind, add_sub_cancel_left, abs_of_pos (by norm_num)] at hdist
  rw [onGrid, div_eq_iff hunit.ne'] at hbefore hbehind
  have hstep : sizeAt (gridRank places rank) * 10 ^ places = sizeAt rank * 10 ^ places + quantaPerUnit := by
    rw [← Nat.cast_inj (R := ℚ)]
    push_cast
    linarith
  have hdvd : 10 ^ places ∣ quantaPerUnit :=
    (Nat.dvd_add_right (Nat.dvd_mul_left _ _)).1 (hstep ▸ Nat.dvd_mul_left _ _)
  obtain rfl := places_eq_zero_of_dvd hdvd
  rw [pow_zero, mul_one] at hbefore
  have hhalf : 2 * sizeAt rank + quantaPerUnit = 2 * (gridSteps 0 rank * quantaPerUnit) := by
    rw [← Nat.cast_inj (R := ℚ)]
    push_cast
    linarith
  -- the next size is nearer to the grid than half a step
  have hspacing : (2 : ℚ) * 2 ^ doublings rank ≤ quantaPerUnit := by exact_mod_cast two_mul_spacing_le_of_half hhalf
  have hpos : (0 : ℚ) < 2 ^ doublings rank / quantaPerUnit := div_pos (pow_pos two_pos _) hunit
  have hless : (2 : ℚ) ^ doublings rank / quantaPerUnit ≤ 1 / 2 := by
    rw [div_le_iff₀ hunit]
    linarith
  have hnext : onGrid 0 (rank + 1) = gridSteps 0 rank - 1 / 2 + 2 ^ doublings rank / quantaPerUnit := by
    rw [onGrid, pow_zero, mul_one, sizeAt_succ, Nat.cast_add, Nat.cast_pow, Nat.cast_ofNat, add_div, hbefore,
      mul_div_cancel_right₀ _ hunit.ne']
  rw [hnext] at hdist
  exact absurd hdist (not_le.2 (abs_lt.2 ⟨by linarith, by linarith⟩))

/-- **What comes out is taken to itself.**  It is as near to the same number of steps as the size before, unless it lies
half a step behind it. -/
theorem gridRank_gridRank (places rank : Nat) : gridRank places (gridRank places rank) = gridRank places rank := by
  obtain ⟨hlow, hhigh⟩ := gridSteps_eq_iff.1 (Eq.refl (gridSteps places rank))
  have hdist := dist_onGrid_le places rank rank
  have hhalf : |onGrid places rank - gridSteps places rank| ≤ 1 / 2 := abs_le.2 ⟨by linarith, by linarith⟩
  obtain ⟨hlow', hhigh'⟩ := abs_le.1 (hdist.trans hhalf)
  have hsteps : gridSteps places (gridRank places rank) = gridSteps places rank := by
    refine gridSteps_eq_iff.2 ⟨by linarith, lt_of_le_of_ne (by linarith) fun hbehind => ?_⟩
    rw [hbehind, add_sub_cancel_left, abs_of_pos (by norm_num)] at hdist
    rcases le_abs.1 hdist with habove | hbelow
    · linarith
    · exact not_astride (by linarith) hbehind
  rw [gridRank, hsteps, gridRank]

end Calculator
