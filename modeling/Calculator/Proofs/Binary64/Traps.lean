import Calculator.Binary64.Integral
import Calculator.Platform
import Calculator.Proofs.Binary64.Whole
/-!
# Operations that trap, and their guards

The platform's arithmetic has no NaN for every question: it traps division by zero, arguments without a value, results
out of range, conversions of what is not finite, decimals with too many digits.  The functions of the calculator are
built on it with guards: a condition is looked at before an operation is used, or a trap is caught and replaced by the
value that IEEE 754 gives.  `Checked` has the operations with their documented traps, `Guarded` the functions as they
are built on them; nothing traps any more, and what comes out is what the total definitions say (`Guarded.divide_eq`
and so on, one for each function).
-/
namespace Calculator

/-- What an operation of the platform may end in, other than a result. -/
inductive Trap where
  | zeroDivision
  /-- The arguments have no value. -/
  | invalid
  /-- The value is out of range. -/
  | overflow
  /-- The digits of a decimal exceed the precision of its context. -/
  | precision
  /-- A table has no entry for a key. -/
  | missing
  /-- A function cannot be given as many arguments. -/
  | arguments
deriving DecidableEq

variable {α β : Type}

/-- A result in place of the traps that a handler knows. -/
def Trap.rescue (r : Except Trap α) (handler : Trap → Option α) : Except Trap α :=
  match r with
  | .ok x => .ok x
  | .error t =>
    match handler t with
    | some x => .ok x
    | none => .error t

/-- The end without a trap. -/
def Untrapped (r : Except Trap α) : Prop := ∃ x, r = .ok x

theorem ok_bind (x : α) (f : α → Except Trap β) : (Except.ok x >>= f) = f x := rfl

theorem rescue_ok (x : α) (handler : Trap → Option α) : Trap.rescue (.ok x) handler = .ok x := rfl

open Binary64

variable {x y : Binary64}

/-! ## Operations with their traps -/

namespace Checked

/-- Division, also of a NaN, by a zero is trapped. -/
def quotient (x y : Binary64) : Except Trap Binary64 := if y.isZero then .error .zeroDivision else .ok (x.div y)

/-- The remainder of an infinity, or by a zero, is invalid; by an infinity a finite number stays. -/
def remainder : Binary64 → Binary64 → Except Trap Binary64
  | nan, _ | _, nan => .ok nan
  | infinite _, _ => .error .invalid
  | x@(finite ..), infinite _ => .ok x
  | x@(finite ..), y@(finite ..) => if y.isZero then .error .invalid else .ok (x.rem y)

/-- Of finite arguments the power is finite, or else there is a trap: a zero to a negative power and a negative number
to a fraction are invalid. -/
def power (x y : Binary64) : Except Trap Binary64 :=
  let result := x.pow y
  if !(x.isFinite && y.isFinite) || result.isFinite then .ok result
  else if result.isNaN || x.isZero then .error .invalid
  else .error .overflow

/-- A function whose result is no NaN unless its argument is one: instead it is invalid. -/
def apply (f : Binary64 → Binary64) (x : Binary64) : Except Trap Binary64 :=
  if (f x).isNaN && !x.isNaN then .error .invalid else .ok (f x)

/-- The exponential is out of range if that of a finite number is not finite. -/
def exp (x : Binary64) : Except Trap Binary64 :=
  if x.isFinite ∧ x.exp = infinite false then .error .overflow else apply Binary64.exp x

/-- A zero has no logarithm. -/
def logarithm (f : Float → Float) (x : Binary64) : Except Trap Binary64 :=
  if x.isZero then .error .invalid else apply (Binary64.logarithm f) x

/-- The gamma function, whose values between the whole numbers are given.  At a positive whole number it has that of the
platform, or is out of range; it has none at zero and at the negative ones. -/
def gamma [Platform] (between : Binary64 → Except Trap Binary64) (x : Binary64) : Except Trap Binary64 :=
  match x with
  | nan => .ok nan
  | infinite negative => if negative then .error .invalid else .ok (infinite false)
  | finite .. =>
    if !x.isIntegral then between x
    else if x.isZero || x.isNegative then .error .invalid
    else
      match Platform.gamma x with
      | infinite _ => .error .overflow
      | value => .ok value

/-- The whole number to which a finite number is rounded. -/
def whole (round : Int → Int) : Binary64 → Except Trap Int
  | nan => .error .invalid
  | infinite _ => .error .overflow
  | x@(finite ..) => .ok (round x.signedQuanta)

/-- The double nearest to a whole number must be finite. -/
def ofWhole (i : Int) : Except Trap Binary64 := if (ofInt i).isFinite then .ok (ofInt i) else .error .overflow

/-- The digits that a decimal may have. -/
def digits : Nat := 1500

/-- The digits of a magnitude rounded to decimal places, as a whole number. -/
def quantize (x : Binary64) (places : Nat) : Except Trap Nat :=
  let coefficient := roundHalfUp (x.quanta * Nat.pow 10 places) quantaPerUnit
  if x.isFinite ∧ coefficient < Nat.pow 10 digits then .ok coefficient else .error .precision

/-- The number that stands before all others, by a comparison; among none there is no such. -/
def extreme (before : Binary64 → Binary64 → Bool) : List Binary64 → Except Trap Binary64
  | [] => .error .invalid
  | x :: rest => .ok (rest.foldl (fun best y => if before y best then y else best) x)

end Checked

/-! ## Functions with their guards -/

namespace Guarded

/-- A quotient by zero is taken from the signs. -/
def divide (x y : Binary64) : Except Trap Binary64 :=
  Trap.rescue (Checked.quotient x y) fun
    | .zeroDivision =>
      if x.isZero || x.isNaN then some nan
      else some (mul ((infinite false).withSign x.isNegative) (one.withSign y.isNegative))
    | _ => none

def remainder (x y : Binary64) : Except Trap Binary64 :=
  if !(x.isFinite && y.isFinite) || y.isZero then .ok nan else Checked.remainder x y

def power (x y : Binary64) : Except Trap Binary64 :=
  Trap.rescue (Checked.power x y) fun
    | .overflow => some (infinite (x.lt (zero false) && y.isOdd))
    | .invalid =>
      if x.isZero && y.lt (zero false) then
        some (if y.isOdd then (infinite false).withSign x.isNegative else infinite false)
      else some nan
    | _ => none

/-- The factorial through the gamma function, which is only asked at positive whole numbers. -/
def factorial [Platform] (between : Binary64 → Except Trap Binary64) (x : Binary64) : Except Trap Binary64 :=
  if x.isNaN || x.lt (zero false) || !(!x.isFinite || x.isIntegral) then .ok nan
  else if !x.isFinite then .ok (infinite false)
  else
    Trap.rescue (Checked.gamma between (x.add one)) fun
      | .overflow => some (infinite false)
      | _ => none

/-- A NaN for what is invalid, and the positive infinity for what is out of range. -/
def ieee (r : Except Trap Binary64) : Except Trap Binary64 :=
  Trap.rescue r fun
    | .invalid => some nan
    | .overflow => some (infinite false)
    | _ => none

def apply (f : Binary64 → Binary64) (x : Binary64) : Except Trap Binary64 := ieee (Checked.apply f x)

def exp (x : Binary64) : Except Trap Binary64 := ieee (Checked.exp x)

def logarithm (f : Float → Float) (x : Binary64) : Except Trap Binary64 :=
  ieee (if x.isZero then .ok (infinite true) else Checked.logarithm f x)

def log (x base : Binary64) : Except Trap Binary64 :=
  ieee (if base.same e then logarithm Float.log x
    else do divide (← logarithm Float.log x) (← logarithm Float.log base))

def toWhole (round : Int → Int) (x : Binary64) : Except Trap Binary64 :=
  if x.isFinite then do Checked.ofWhole (← Checked.whole round x) else .ok x

def floor : Binary64 → Except Trap Binary64 := toWhole fun q => q.fdiv quantaPerUnit

def ceil : Binary64 → Except Trap Binary64 := toWhole fun q => -(-q).fdiv quantaPerUnit

def trunc : Binary64 → Except Trap Binary64 := toWhole fun q => q.tdiv quantaPerUnit

def round (x places : Binary64) : Except Trap Binary64 :=
  if !places.isFinite || places.lt (zero false) || !places.isIntegral then .ok nan
  else if !x.isFinite || exactPlaces < places.wholePart then .ok x
  else do
    let count ← Checked.whole (fun q => q.tdiv quantaPerUnit) places
    let coefficient ← Checked.quantize x count.toNat
    return (ofQuotient false (coefficient * quantaPerUnit) (Nat.pow 10 count.toNat)).withSign x.isNegative

def extreme (before : Binary64 → Binary64 → Bool) (xs : List Binary64) : Except Trap Binary64 :=
  if xs.any isNaN then .ok nan else Checked.extreme before xs

/-! ## Quotients and remainders -/

theorem mul_infinite_one (a b : Bool) : mul (infinite a) (one.withSign b) = infinite (a != b) := by
  rw [one_eq]
  cases a <;> cases b <;> rfl

/-- **No division by zero escapes.** -/
theorem divide_eq (x y : Binary64) : divide x y = .ok (x.div y) := by
  rw [divide, Checked.quotient]
  by_cases hy : y.isZero = true
  · rw [if_pos hy]
    cases y with
    | nan => nomatch hy
    | infinite => nomatch hy
    | finite b rank =>
      cases x with
      | nan => rfl
      | infinite a =>
        show Except.ok (mul (infinite a) (one.withSign b)) = _
        rw [mul_infinite_one]
        rfl
      | finite a rank' =>
        simp only [Trap.rescue, isNaN, Bool.or_false, div, hy, if_true]
        by_cases hx : (finite a rank').isZero = true
        · simp only [hx, if_true]
        · simp only [hx]
          show Except.ok (mul (infinite a) (one.withSign b)) = _
          rw [mul_infinite_one]
          rfl
  · rw [if_neg hy, rescue_ok]

/-- Dividing by the negative zero traps, but the guarded quotient does not. -/
example : Checked.quotient one (zero true) = .error .zeroDivision ∧ divide one (zero true) = .ok (infinite true) :=
  ⟨rfl, by rw [divide_eq, one_eq]; rfl⟩

theorem remainder_eq (x y : Binary64) : remainder x y = .ok (x.rem y) := by
  rw [remainder]
  cases x with
  | nan => cases y <;> rfl
  | infinite => cases y <;> rfl
  | finite a rank =>
    cases y with
    | nan => rfl
    | infinite => rfl
    | finite b rank' =>
      by_cases hy : (finite b rank').isZero = true
      · simp only [isFinite, Bool.and_self, Bool.not_true, Bool.false_or, hy, if_true, rem]
      · simp only [isFinite, Bool.and_self, Bool.not_true, Bool.false_or, hy, Checked.remainder]
        rfl

/-! ## Powers -/

theorem isFinite_one : one.isFinite = true := by rw [one_eq]; rfl

theorem isNaN_eq_false (h : x.isFinite = true) : x.isNaN = false := by
  cases x with
  | nan => nomatch h
  | infinite => rfl
  | finite => rfl

theorem lt_zero_eq_isNegative (hfinite : x.isFinite = true) (hzero : x.isZero = false) :
    x.lt (zero false) = x.isNegative := by
  cases x with
  | nan => nomatch hfinite
  | infinite => nomatch hfinite
  | finite negative rank =>
    have hrank : rank.val ≠ 0 := beq_eq_false_iff_ne.1 hzero
    cases negative with
    | false => exact decide_eq_false (show ¬ (rank.val : Int) < 0 by omega)
    | true => exact decide_eq_true (show -(rank.val : Int) < 0 by omega)

theorem properPow_of_isFinite (hx : x.isFinite = true) (hy : y.isFinite = true) :
    properPow x y =
      if x.isZero then if y.isNegative then infinite (x.isNegative && y.isOdd) else zero (x.isNegative && y.isOdd)
      else if x.isNegative && !y.isIntegral then nan
      else (ofMachine₂ Float.pow x.abs y).withSign (x.isNegative && y.isOdd) := by
  cases y with
  | nan => nomatch hy
  | infinite => nomatch hy
  | finite => simp only [properPow, hx, Bool.not_true, Bool.false_eq_true, if_false]

/-- A power of finite numbers is finite, or that of a zero to a negative exponent, or not a number, or out of range. -/
theorem pow_cases (hx : x.isFinite = true) (hy : y.isFinite = true) :
    (x.pow y).isFinite = true ∨
      x.isZero = true ∧ y.lt (zero false) = true ∧ x.pow y = infinite (x.isNegative && y.isOdd) ∨
      x.isZero = false ∧ x.pow y = nan ∨
      x.isZero = false ∧ x.pow y = infinite (x.isNegative && y.isOdd) := by
  rw [pow]
  split
  · exact .inl isFinite_one
  · next hproper =>
    rw [Bool.or_eq_true, not_or, Bool.not_eq_true] at hproper
    rw [isNaN_eq_false hx, isNaN_eq_false hy, Bool.or_self, if_neg Bool.false_ne_true, properPow_of_isFinite hx hy]
    cases hzero : x.isZero with
    | true =>
      rw [if_pos rfl]
      cases hnegative : y.isNegative with
      | true => exact .inr (.inl ⟨rfl, (lt_zero_eq_isNegative hy hproper.1).trans hnegative, rfl⟩)
      | false => exact .inl rfl
    | false =>
      rw [if_neg Bool.false_ne_true]
      split
      · exact .inr (.inr (.inl ⟨rfl, rfl⟩))
      · cases ofMachine₂ Float.pow x.abs y with
        | nan => exact .inr (.inr (.inl ⟨rfl, rfl⟩))
        | infinite => exact .inr (.inr (.inr ⟨rfl, rfl⟩))
        | finite => exact .inl rfl

/-- **No domain error and no overflow of a power escapes.** -/
theorem power_eq (x y : Binary64) : power x y = .ok (x.pow y) := by
  rw [power, Checked.power]
  by_cases hfinite : (x.isFinite && y.isFinite) = true
  · obtain ⟨hx, hy⟩ := Bool.and_eq_true_iff.1 hfinite
    simp only [hfinite, Bool.not_true, Bool.false_or]
    rcases pow_cases hx hy with hpow | ⟨hzero, hlt, hpow⟩ | ⟨hzero, hpow⟩ | ⟨hzero, hpow⟩
    · rw [if_pos hpow, rescue_ok]
    · simp only [hpow, isFinite, isNaN, hzero, hlt, Bool.false_or, Bool.false_eq_true, if_false, if_true, Trap.rescue,
        Bool.and_self]
      cases y.isOdd with
      | true => rw [Bool.and_true]; rfl
      | false => rw [Bool.and_false]; rfl
    · simp only [hpow, isFinite, isNaN, hzero, Bool.true_or, Bool.false_and, Bool.false_eq_true, if_false, if_true,
        Trap.rescue]
    · simp only [hpow, isFinite, isNaN, hzero, Bool.or_self, Bool.false_eq_true, if_false, Trap.rescue,
        lt_zero_eq_isNegative hx hzero]
  · rw [Bool.not_eq_true] at hfinite
    simp only [hfinite, Bool.not_false, Bool.true_or, if_true, rescue_ok]

/-! ## Factorials -/

/-- **The gamma function is only asked at positive whole numbers**, and what is out of range does not escape. -/
theorem factorial_eq [Platform] (between : Binary64 → Except Trap Binary64) (x : Binary64) :
    factorial between x = .ok x.factorial := by
  cases x with
  | nan => rfl
  | infinite negative => cases negative <;> rfl
  | finite negative rank =>
    simp only [factorial, Binary64.factorial, isNaN, isFinite, Bool.false_or, Bool.not_true, Bool.false_eq_true,
      if_false]
    split
    · rfl
    · next hcondition =>
      obtain ⟨hnonneg, hintegral⟩ : (finite negative rank).lt (zero false) = false ∧
          (finite negative rank).isIntegral = true := by simpa using hcondition
      obtain ⟨next, hadd, hwhole, hpositive⟩ := exists_add_one hintegral hnonneg
      simp only [hadd, Checked.gamma, hwhole, hpositive, isNegative, Bool.not_true, Bool.or_self, Bool.false_eq_true,
        if_false]
      cases Platform.gamma (finite false next) <;> rfl

/-! ## Functions of the machine -/

/-- **What is invalid or out of range at worst** is contained. -/
theorem untrapped_ieee {r : Except Trap Binary64} (h : ∀ t, r = .error t → t = .invalid ∨ t = .overflow) :
    Untrapped (ieee r) := by
  cases r with
  | ok x => exact ⟨x, rfl⟩
  | error t =>
    rcases h t rfl with rfl | rfl
    · exact ⟨nan, rfl⟩
    · exact ⟨infinite false, rfl⟩

theorem apply_eq (f : Binary64 → Binary64) (x : Binary64) : apply f x = .ok (f x) := by
  rw [apply, Checked.apply]
  cases f x with
  | nan => cases x <;> rfl
  | infinite => rfl
  | finite => rfl

theorem exp_eq (x : Binary64) : exp x = .ok x.exp := by
  rw [exp, Checked.exp]
  split
  · next h => rw [h.2]; rfl
  · exact apply_eq Binary64.exp x

theorem logarithm_eq (f : Float → Float) (x : Binary64) : logarithm f x = .ok (Binary64.logarithm f x) := by
  rw [logarithm, Checked.logarithm]
  by_cases hzero : x.isZero = true
  · rw [if_pos hzero, Binary64.logarithm, if_pos hzero]
    rfl
  · rw [if_neg hzero, if_neg hzero]
    exact apply_eq _ x

theorem log_eq (x base : Binary64) : log x base = .ok (x.log base) := by
  rw [log, Binary64.log]
  split
  · rw [logarithm_eq]
    rfl
  · rw [logarithm_eq, logarithm_eq, ok_bind, ok_bind, divide_eq]
    rfl

/-! ## Rounding -/

theorem natAbs_signedQuanta (x : Binary64) : x.signedQuanta.natAbs = x.quanta := by
  rw [signedQuanta]
  split
  · rw [Int.natAbs_neg, Int.natAbs_natCast]
  · rw [Int.natAbs_natCast]

/-- A rounding of a number of quanta to a whole number takes it away from zero by a unit at most. -/
def Near (round : Int → Int) : Prop := ∀ q, (round q).natAbs * quantaPerUnit ≤ q.natAbs + quantaPerUnit

theorem whole_eq (round : Int → Int) (hx : x.isFinite = true) :
    Checked.whole round x = .ok (round x.signedQuanta) := by
  cases x with
  | nan => nomatch hx
  | infinite => nomatch hx
  | finite => rfl

/-- **Only finite numbers are converted to whole numbers**, and the way back stays in range. -/
theorem toWhole_eq {round : Int → Int} (hround : Near round) (x : Binary64) :
    toWhole round x = .ok (Binary64.toWhole round x) := by
  rw [toWhole, Binary64.toWhole]
  by_cases hx : x.isFinite = true
  · have hbound := hround x.signedQuanta
    rw [natAbs_signedQuanta] at hbound
    rw [if_pos hx, if_pos hx, whole_eq round hx, ok_bind, Checked.ofWhole, if_pos (isFinite_ofInt hbound)]
  · rw [if_neg hx, if_neg hx]

theorem natAbs_fdiv_mul_le (q : Int) {unit : Nat} (hpos : 0 < unit) :
    (q.fdiv unit).natAbs * unit ≤ q.natAbs + unit := by
  rw [Int.fdiv_eq_ediv_of_nonneg q (Int.natCast_nonneg unit)]
  have hdiv := Int.mul_ediv_add_emod q unit
  have hmod := Int.emod_nonneg q (Int.natCast_ne_zero.2 hpos.ne')
  have hlt := Int.emod_lt_of_pos q (Int.natCast_pos.2 hpos)
  have habs : (q / unit).natAbs * unit = ((unit : Int) * (q / unit)).natAbs := by
    rw [Int.natAbs_mul, Int.natAbs_natCast, Nat.mul_comm]
  omega

theorem near_floor : Near fun q => q.fdiv quantaPerUnit := fun q => natAbs_fdiv_mul_le q quantaPerUnit_pos

theorem near_ceil : Near fun q => -(-q).fdiv quantaPerUnit := by
  intro q
  have hfloor := natAbs_fdiv_mul_le (-q) quantaPerUnit_pos
  rwa [Int.natAbs_neg, ← Int.natAbs_neg (Int.fdiv _ _)] at hfloor

theorem near_trunc : Near fun q => q.tdiv quantaPerUnit := by
  intro q
  show (q.tdiv quantaPerUnit).natAbs * quantaPerUnit ≤ _
  rw [Int.natAbs_tdiv, Int.natAbs_natCast]
  exact Nat.le_add_right_of_le (Nat.div_mul_le_self _ _)

theorem floor_eq (x : Binary64) : floor x = .ok x.floor := toWhole_eq near_floor x

theorem ceil_eq (x : Binary64) : ceil x = .ok x.ceil := toWhole_eq near_ceil x

theorem trunc_eq (x : Binary64) : trunc x = .ok x.trunc := toWhole_eq near_trunc x

/-- **A rounded magnitude has no more digits than a decimal may have.** -/
theorem coefficient_lt (x : Binary64) {places : Nat} (h : places ≤ exactPlaces) :
    roundHalfUp (x.quanta * Nat.pow 10 places) quantaPerUnit < Nat.pow 10 Checked.digits := by
  have hquanta : x.quanta ≤ 2 ^ 1024 * quantaPerUnit :=
    Nat.le_trans (quanta_le x) (by decide +kernel)
  have hplaces : Nat.pow 10 places ≤ Nat.pow 10 exactPlaces := by
    rw [Nat.pow_eq, Nat.pow_eq]
    exact Nat.pow_le_pow_right (by decide) h
  have hscaled := Nat.mul_le_mul hquanta hplaces
  have hdigits : 2 * (2 ^ 1024 * quantaPerUnit * Nat.pow 10 exactPlaces) + quantaPerUnit <
      Nat.pow 10 Checked.digits * (2 * quantaPerUnit) := by decide +kernel
  rw [roundHalfUp, Nat.div_lt_iff_lt_mul (Nat.mul_pos Nat.two_pos quantaPerUnit_pos)]
  exact Nat.lt_of_le_of_lt (Nat.add_le_add_right (Nat.mul_le_mul_left 2 hscaled) _) hdigits

theorem quantize_eq (hx : x.isFinite = true) {places : Nat} (h : places ≤ exactPlaces) :
    Checked.quantize x places = .ok (roundHalfUp (x.quanta * Nat.pow 10 places) quantaPerUnit) :=
  if_pos ⟨hx, coefficient_lt x h⟩

theorem toNat_tdiv_eq_wholePart (hnonneg : x.lt (zero false) = false) :
    (x.signedQuanta.tdiv quantaPerUnit).toNat = x.wholePart := by
  rw [signedQuanta_of_nonneg hnonneg, ← Int.ofNat_tdiv, Int.toNat_natCast, wholePart]

theorem withSign_atRank (a b : Bool) (rank : Nat) : (atRank a rank).withSign b = atRank b rank := by
  rw [atRank, atRank]
  split <;> rfl

/-- **Rounding to decimal places** converts a finite number of places, and a finite number with few enough digits. -/
theorem round_eq (x places : Binary64) : round x places = .ok (x.round places) := by
  rw [round, Binary64.round]
  by_cases hcount : (!places.isIntegral || places.lt (zero false)) = true
  · have hguard : (!places.isFinite || places.lt (zero false) || !places.isIntegral) = true := by
      rw [Bool.or_eq_true] at hcount ⊢
      exact hcount.elim .inr fun h => .inl (Bool.or_eq_true_iff.2 (.inr h))
    rw [if_pos hcount, if_pos hguard]
  · obtain ⟨hintegral, hnonneg⟩ : places.isIntegral = true ∧ places.lt (zero false) = false := by simpa using hcount
    have hfinite := isFinite_of_isIntegral hintegral
    rw [hintegral, hnonneg, hfinite]
    simp only [Bool.not_true, Bool.or_self, Bool.false_eq_true, if_false]
    split
    · rfl
    · next hexact =>
      obtain ⟨hx, hplaces⟩ : x.isFinite = true ∧ places.wholePart ≤ exactPlaces := by simpa using hexact
      rw [whole_eq _ hfinite, ok_bind, toNat_tdiv_eq_wholePart hnonneg, quantize_eq hx hplaces, ok_bind, ofQuotient,
        withSign_atRank]
      rfl

/-! ## Extremes -/

theorem extreme_eq (before : Binary64 → Binary64 → Bool) (x : Binary64) (rest : List Binary64) :
    extreme before (x :: rest) = .ok (if (x :: rest).any isNaN then nan
      else rest.foldl (fun best y => if before y best then y else best) x) := by
  rw [extreme, Checked.extreme]
  split <;> rfl

end Guarded
end Calculator
