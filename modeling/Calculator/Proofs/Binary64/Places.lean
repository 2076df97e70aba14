import Calculator.Proofs.Binary64.Grid
import Calculator.Proofs.Binary64.Rounded
import Calculator.Proofs.Binary64.Traps
/-!
# Rounding to decimal places

A double is rounded to decimal places exactly: its value goes to the nearest number with so many places, of two the one
further from zero, and that number to the nearest double (`round_exact`).  No digit is lost on the way, and from 1074
places on nothing changes.  The result is its own rounding, larger numbers are not rounded below smaller ones, and
opposite numbers have opposite roundings (`round_stable`).
-/
namespace Calculator

/-- The whole number nearest to a number, of two that are equally near the one further from zero. -/
structure NearestWhole (q : ℚ) (k : ℤ) : Prop where
  dist_le : ∀ j : ℤ, |(k : ℚ) - q| ≤ |(j : ℚ) - q|
  away : ∀ j : ℤ, |(j : ℚ) - q| = |(k : ℚ) - q| → |j| ≤ |k|

namespace NearestWhole

variable {q : ℚ} {j k : ℤ}

theorem neg (h : NearestWhole q k) : NearestWhole (-q) (-k) := by
  have hdist : ∀ j : ℤ, |(j : ℚ) - -q| = |((-j : ℤ) : ℚ) - q| := fun j => by
    rw [Int.cast_neg, ← neg_add', abs_neg, sub_neg_eq_add]
  refine ⟨fun j => ?_, fun j htie => ?_⟩
  · rw [hdist, hdist, neg_neg]
    exact h.dist_le (-j)
  · rw [hdist, hdist, neg_neg] at htie
    rw [← abs_neg j, abs_neg k]
    exact h.away (-j) htie

/-- **There is only one.**  Opposite whole numbers are equally near to zero alone, which is itself whole. -/
theorem unique (hj : NearestWhole q j) (hk : NearestWhole q k) : j = k := by
  have htie := le_antisymm (hj.dist_le k) (hk.dist_le j)
  have habs := le_antisymm (hk.away j htie) (hj.away k htie.symm)
  rcases abs_eq_abs.1 habs with heq | rfl
  · exact heq
  · suffices hzero : (k : ℚ) = 0 by rw [Int.cast_eq_zero.1 hzero, neg_zero]
    rw [Int.cast_neg] at htie
    rcases abs_eq_abs.1 htie with heq | hneg
    · linarith
    · have hq : q = 0 := by linarith
      have hnear := hk.dist_le 0
      rwa [hq, Int.cast_zero, sub_zero, sub_zero, abs_zero, abs_nonpos_iff] at hnear

/-- A number that is not negative goes to the whole number that it is half before or less than half behind. -/
theorem of_bounds {n : Nat} (hq : 0 ≤ q) (hlow : (n : ℚ) - 1 / 2 ≤ q) (hhigh : q < n + 1 / 2) : NearestWhole q n := by
  have hhalf : |(n : ℚ) - q| ≤ 1 / 2 := abs_le.2 ⟨by linarith, by linarith⟩
  constructor
  · intro j
    rw [Int.cast_natCast]
    rcases lt_trichotomy j n with hlt | rfl | hgt
    · have hless : (j : ℚ) + 1 ≤ n := by exact_mod_cast hlt
      have habs := neg_abs_le ((j : ℚ) - q)
      linarith
    · rw [Int.cast_natCast]
    · have hmore : (n : ℚ) + 1 ≤ j := by exact_mod_cast hgt
      have habs := le_abs_self ((j : ℚ) - q)
      linarith
  · intro j htie
    rw [Int.cast_natCast] at htie
    rcases abs_eq_abs.1 htie with heq | hneg
    · have hj : (j : ℚ) = n := by linarith
      rw [show j = n by exact_mod_cast hj]
    · -- the number is half way between the two
      have hless : (j : ℚ) < n + 1 := by linarith
      have hsum : (0 : ℚ) ≤ j + n := by linarith
      have hj : j < n + 1 := by exact_mod_cast hless
      have hnonneg : 0 ≤ j + n := by exact_mod_cast hsum
      exact abs_le_abs (by omega) (by omega)

end NearestWhole

/-- The steps of the grid are the nearest whole number of them. -/
theorem nearestWhole_gridSteps (places rank : Nat) : NearestWhole (onGrid places rank) (gridSteps places rank) := by
  obtain ⟨hlow, hhigh⟩ := gridSteps_eq_iff.1 (Eq.refl (gridSteps places rank))
  refine .of_bounds ?_ hlow hhigh
  exact div_nonneg (mul_nonneg (Nat.cast_nonneg _) (pow_nonneg (by norm_num) _)) (Nat.cast_nonneg _)

namespace Binary64

variable {x y places : Binary64} {d : Nat}

/-! ## The number of places -/

/-- A finite double that is a natural number. -/
def IsWhole (x : Binary64) (n : Nat) : Prop := x.isFinite = true ∧ x.value = n

theorem IsWhole.wholePart_eq (h : places.IsWhole d) : places.wholePart = d := wholePart_of_value (i := d) h.2

theorem isWhole_of_sizeAt {rank : Fin rankLimit} {n : Nat} (h : sizeAt rank = n * quantaPerUnit) :
    (finite false rank).IsWhole n := by
  refine ⟨rfl, ?_⟩
  rw [value_eq, isNegative, quanta, h, Nat.cast_mul, mul_div_cancel_right₀ _ cast_quantaPerUnit_ne_zero]
  rfl

/-- A natural number of places is not refused. -/
theorem IsWhole.accepted (h : places.IsWhole d) : (!places.isIntegral || places.lt (zero false)) = false := by
  have hintegral : places.isIntegral = true := (isIntegral_iff h.1).2 ⟨d, by rw [h.2, Int.cast_natCast]⟩
  have hnonneg : ¬ places.lt (zero false) = true := by
    rw [lt_zero_iff h.1, h.2, not_lt]
    exact Nat.cast_nonneg d
  rw [hintegral, Bool.eq_false_of_not_eq_true hnonneg]
  rfl

/-! ## Rounding by ranks -/

theorem roundToPlaces_finite (negative : Bool) (rank : Fin rankLimit) (d : Nat) :
    (finite negative rank).roundToPlaces d = finite negative ⟨gridRank d rank, gridRank_lt d rank.isLt⟩ :=
  dif_pos (gridRank_lt d rank.isLt)

/-- From `exactPlaces` on every size is on the grid. -/
theorem roundToPlaces_of_le (negative : Bool) (rank : Fin rankLimit) (h : exactPlaces ≤ d) :
    (finite negative rank).roundToPlaces d = finite negative rank := by
  rw [roundToPlaces_finite]
  exact congrArg _ (Fin.ext (gridRank_of_dvd (quantaPerUnit_dvd_mul_pow h _)))

/-- **The shortcut is what the rule gives** too. -/
theorem round_eq_roundToPlaces (h : places.IsWhole d) (hx : x.isFinite = true) :
    x.round places = x.roundToPlaces d := by
  rw [round, h.accepted, if_neg Bool.false_ne_true, hx, h.wholePart_eq, Bool.not_true, Bool.false_or]
  by_cases hplaces : exactPlaces < d
  · obtain ⟨negative, rank, rfl⟩ := exists_finite hx
    rw [if_pos (decide_eq_true hplaces), roundToPlaces_of_le negative rank hplaces.le]
  · rw [decide_eq_false hplaces, if_neg Bool.false_ne_true]

theorem round_finite (h : places.IsWhole d) (negative : Bool) (rank : Fin rankLimit) :
    (finite negative rank).round places = finite negative ⟨gridRank d rank, gridRank_lt d rank.isLt⟩ := by
  rw [round_eq_roundToPlaces h rfl, roundToPlaces_finite]

/-- What is not finite stays as it is. -/
theorem round_of_not_finite (h : places.IsWhole d) (hx : x.isFinite = false) : x.round places = x := by
  rw [round, h.accepted, if_neg Bool.false_ne_true, hx]
  rfl

/-! ## Exactness -/

/-- A whole number with a sign. -/
def signedWhole (negative : Bool) (n : Nat) : ℤ := if negative then -n else n

theorem cast_signedWhole (negative : Bool) (n : Nat) : (signedWhole negative n : ℚ) = signed negative n := by
  cases negative
  · exact Int.cast_natCast n
  · exact (Int.cast_neg _).trans (congrArg _ (Int.cast_natCast n))

theorem nearestWhole_signed (negative : Bool) {q : ℚ} {n : Nat} (h : NearestWhole q n) :
    NearestWhole (signed negative q) (signedWhole negative n) := by
  cases negative
  · exact h
  · exact h.neg

theorem value_mul_pow (negative : Bool) (rank : Fin rankLimit) (d : Nat) :
    (finite negative rank).value * 10 ^ d = signed negative (onGrid d rank) := by
  rw [value_eq, isNegative, quanta, onGrid, ← div_mul_eq_mul_div]
  cases negative
  · rfl
  · exact neg_mul _ _

theorem natAbs_signedWhole (negative : Bool) (n : Nat) : (signedWhole negative n).natAbs = n := by
  cases negative
  · exact Int.natAbs_natCast n
  · exact (Int.natAbs_neg _).trans (Int.natAbs_natCast n)

/-- The rank that comes out is that of the double nearest to the steps. -/
theorem nearest_gridRank (negative : Bool) (rank : Fin rankLimit) (d : Nat) :
    (finite negative ⟨gridRank d rank, gridRank_lt d rank.isLt⟩).Nearest
      (signedWhole negative (gridSteps d rank) / 10 ^ d) := by
  have hsteps : (0 : ℚ) ≤ gridSteps d rank / 10 ^ d := div_nonneg (Nat.cast_nonneg _) (pow_nonneg (by norm_num) _)
  have hround := roundsTo_gridRank d rank
  rw [← div_mul_eq_mul_div] at hround
  have hnearest := nearest_atRank negative hsteps hround (gridRank_lt d rank.isLt)
  rw [atRank, dif_pos (gridRank_lt d rank.isLt)] at hnearest
  rw [cast_signedWhole, signed_div]
  exact hnearest

/-- The steps have no more digits than a decimal may have. -/
theorem gridSteps_lt (rank : Fin rankLimit) (h : d ≤ exactPlaces) : gridSteps d rank < 10 ^ Checked.digits := by
  have hpow : ∀ n, Nat.pow 10 n = 10 ^ n := fun _ => rfl
  have hdigits := Guarded.coefficient_lt (finite false rank) h
  rwa [hpow, hpow, quanta, ← gridSteps] at hdigits

/-- On the grid the steps are the number itself. -/
theorem signedWhole_div_eq_value (negative : Bool) {rank : Fin rankLimit} (h : quantaPerUnit ∣ sizeAt rank * 10 ^ d) :
    (signedWhole negative (gridSteps d rank) : ℚ) / 10 ^ d = (finite negative rank).value := by
  have hsteps : (gridSteps d rank * quantaPerUnit : ℚ) = sizeAt rank * 10 ^ d := by exact_mod_cast gridSteps_of_dvd h
  rw [div_eq_iff (pow_ne_zero d (by norm_num)), value_mul_pow, cast_signedWhole, onGrid, ← hsteps,
    mul_div_cancel_right₀ _ cast_quantaPerUnit_ne_zero]

/-- **Rounding to decimal places is exact.**  For a finite number and every natural number of places there is one whole
number `k` nearest to the number in steps of the last place, halves away from zero; the result is the double nearest to
`k` steps, with the sign of the number.  Every step on the way can be taken: up to 1074 places `k` has at most 1500
digits.  From 1074 places on the `k` steps are the number itself, so to return it unchanged is what the rule gives. -/
theorem round_exact (x places : Binary64) (d : Nat) (hx : x.isFinite = true) (hplaces : places.IsWhole d) :
    ∃ k : ℤ, (∀ j, NearestWhole (x.value * 10 ^ d) j ↔ j = k) ∧
      Guarded.round x places = .ok (x.round places) ∧
      (x.round places).Nearest (k / 10 ^ d) ∧ (x.round places).isNegative = x.isNegative ∧
      (d ≤ exactPlaces → k.natAbs < 10 ^ Checked.digits) ∧
      (exactPlaces ≤ d → k / 10 ^ d = x.value ∧ x.round places = x ∧ x.roundToPlaces d = x) := by
  obtain ⟨negative, rank, rfl⟩ := exists_finite hx
  have hnearest : NearestWhole ((finite negative rank).value * 10 ^ d) (signedWhole negative (gridSteps d rank)) := by
    rw [value_mul_pow]
    exact nearestWhole_signed negative (nearestWhole_gridSteps d rank)
  refine ⟨signedWhole negative (gridSteps d rank), fun j => ⟨fun hj => hj.unique hnearest, fun hj => hj ▸ hnearest⟩,
    Guarded.round_eq _ places, ?_⟩
  rw [round_finite hplaces]
  refine ⟨?_, ?_, fun hd => ?_, fun hd => ?_⟩
  · exact nearest_gridRank negative rank d
  · rw [isNegative, isNegative]
  · rw [natAbs_signedWhole]
    exact gridSteps_lt rank hd
  · have hdvd := quantaPerUnit_dvd_mul_pow hd (sizeAt rank)
    have hrank : finite negative ⟨gridRank d rank, gridRank_lt d rank.isLt⟩ = finite negative rank :=
      congrArg _ (Fin.ext (gridRank_of_dvd hdvd))
    exact ⟨signedWhole_div_eq_value negative hdvd, hrank, roundToPlaces_of_le negative rank hd⟩

/-- Minus an eighth is half way between minus 0.12 and minus 0.13, and goes to the latter. -/
theorem round_exact_eighth :
    let x := finite true ⟨0x3FC0000000000000, by decide⟩
    let places := finite false ⟨0x4000000000000000, by decide⟩
    x.isFinite = true ∧ places.IsWhole 2 ∧ NearestWhole (x.value * 10 ^ 2) (-13) ∧
      Guarded.round x places = .ok (x.round places) ∧ (x.round places).Nearest (-13 / 10 ^ 2) := by
  intro x places
  have hplaces : places.IsWhole 2 := isWhole_of_sizeAt (by decide +kernel)
  have hsize : sizeAt 0x3FC0000000000000 * 8 = quantaPerUnit := by decide +kernel
  have hsizeq : (sizeAt 0x3FC0000000000000 : ℚ) * 8 = quantaPerUnit := by exact_mod_cast hsize
  have hunit := cast_quantaPerUnit_pos
  have hgrid : onGrid 2 0x3FC0000000000000 = 25 / 2 := by
    rw [onGrid, div_eq_iff hunit.ne']
    linarith
  have hvalue : x.value * 10 ^ 2 = -(25 / 2) := by
    rw [← hgrid]
    exact value_mul_pow true _ 2
  have hnearest : NearestWhole (x.value * 10 ^ 2) (-13) := by
    rw [hvalue]
    exact (NearestWhole.of_bounds (n := 13) (by norm_num) (by norm_num) (by norm_num)).neg
  obtain ⟨k, hk, hguarded, hdouble, -⟩ := round_exact x places 2 rfl hplaces
  obtain rfl := (hk (-13)).1 hnearest
  rw [Int.cast_neg, Int.cast_ofNat] at hdouble
  exact ⟨rfl, hplaces, hnearest, hguarded, hdouble⟩

/-! ## Stability -/

theorem finite_le_finite {a b : Bool} {r s : Fin rankLimit} :
    (finite a r).le (finite b s) = true ↔ signedWhole a r ≤ signedWhole b s := decide_eq_true_iff

theorem infinite_le_finite (a b : Bool) (s : Fin rankLimit) : (infinite a).le (finite b s) = a := by
  have hs := s.isLt
  cases a <;> cases b
  · exact decide_eq_false (show ¬ (rankLimit : Int) ≤ s.val by omega)
  · exact decide_eq_false (show ¬ (rankLimit : Int) ≤ -s.val by omega)
  · exact decide_eq_true (show -(rankLimit : Int) ≤ s.val by omega)
  · exact decide_eq_true (show -(rankLimit : Int) ≤ -s.val by omega)

theorem finite_le_infinite (a b : Bool) (r : Fin rankLimit) : (finite a r).le (infinite b) = !b := by
  have hr := r.isLt
  cases a <;> cases b
  · exact decide_eq_true (show (r.val : Int) ≤ rankLimit by omega)
  · exact decide_eq_false (show ¬ (r.val : Int) ≤ -rankLimit by omega)
  · exact decide_eq_true (show -(r.val : Int) ≤ rankLimit by omega)
  · exact decide_eq_false (show ¬ -(r.val : Int) ≤ -rankLimit by omega)

/-- What keeps the order of magnitudes, and zero, keeps that of signed numbers. -/
theorem signedWhole_mono {f : Nat → Nat} (hmono : Monotone f) (hzero : f 0 = 0) {a b : Bool} {m n : Nat}
    (h : signedWhole a m ≤ signedWhole b n) : signedWhole a (f m) ≤ signedWhole b (f n) := by
  cases a <;> cases b <;> simp only [signedWhole, if_true, Bool.false_eq_true, if_false] at h ⊢
  · have := hmono (show m ≤ n by omega)
    omega
  · obtain ⟨rfl, rfl⟩ : m = 0 ∧ n = 0 := by omega
    rw [hzero]
    exact h
  · omega
  · have := hmono (show n ≤ m by omega)
    omega

/-- Larger numbers are not rounded below smaller ones. -/
theorem le_round (h : places.IsWhole d) (hle : x.le y = true) : (x.round places).le (y.round places) = true := by
  cases x with
  | nan => cases hle
  | infinite a =>
    rw [round_of_not_finite h rfl]
    cases y with
    | nan => cases hle
    | infinite b => rwa [round_of_not_finite h rfl]
    | finite b s =>
      rw [infinite_le_finite] at hle
      rw [round_finite h, infinite_le_finite, hle]
  | finite a r =>
    rw [round_finite h]
    cases y with
    | nan => cases hle
    | infinite b =>
      rw [finite_le_infinite] at hle
      rw [round_of_not_finite h rfl, finite_le_infinite, hle]
    | finite b s =>
      have hzero : gridRank d 0 = 0 := gridRank_of_dvd (by rw [sizeAt_zero, Nat.zero_mul]; exact Nat.dvd_zero _)
      rw [round_finite h]
      rw [finite_le_finite] at hle ⊢
      exact signedWhole_mono (gridRank_mono d) hzero hle

theorem round_round (h : places.IsWhole d) (x : Binary64) : (x.round places).round places = x.round places := by
  cases hx : x.isFinite with
  | false => rw [round_of_not_finite h hx, round_of_not_finite h hx]
  | true =>
    obtain ⟨negative, rank, rfl⟩ := exists_finite hx
    rw [round_finite h, round_finite h]
    exact congrArg _ (Fin.ext (gridRank_gridRank d rank))

theorem round_neg (h : places.IsWhole d) (x : Binary64) : x.neg.round places = (x.round places).neg := by
  cases hx : x.isFinite with
  | false => rw [round_of_not_finite h hx, round_of_not_finite h ((isFinite_neg x).trans hx)]
  | true =>
    obtain ⟨negative, rank, rfl⟩ := exists_finite hx
    rw [neg, round_finite h, round_finite h, neg]

/-- **Rounding to decimal places is idempotent, monotone and odd**, for every natural number of places: the double that
comes out is its own rounding, larger numbers are not rounded below smaller ones, and opposite numbers have opposite
roundings. -/
theorem round_stable (x y places : Binary64) (d : Nat) (hplaces : places.IsWhole d) :
    (x.round places).round places = x.round places ∧
      (x.le y = true → (x.round places).le (y.round places) = true) ∧ x.neg.round places = (x.round places).neg :=
  ⟨round_round hplaces x, le_round hplaces, round_neg hplaces x⟩

/-- To a negative zero of places, which is as good as none, a half goes to one and minus a half to minus one. -/
theorem round_stable_half :
    let half := finite false ⟨0x3FE0000000000000, by decide⟩
    let places := zero true
    places.IsWhole 0 ∧ half.neg.le half = true ∧ half.round places = one ∧ half.neg.round places = one.neg ∧
      one.round places = one ∧ one.neg.le one = true := by
  intro half places
  have hplaces : places.IsWhole 0 := ⟨rfl, ((isZero_iff rfl).1 rfl).trans Nat.cast_zero.symm⟩
  have hle : half.neg.le half = true := by decide +kernel
  have hround : half.round places = one := by decide +kernel
  obtain ⟨hagain, -, hneg⟩ := round_stable half half places 0 hplaces
  have hmono := (round_stable half.neg half places 0 hplaces).2.1 hle
  rw [hround] at hagain hneg hmono
  rw [hneg] at hmono
  exact ⟨hplaces, hle, hround, hneg, hagain, hmono⟩

end Binary64
end Calculator
