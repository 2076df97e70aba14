import Calculator.Proofs.Binary64.Rounded
import Calculator.Proofs.Decimal.Literals
import Calculator.Proofs.Evaluation.Readback
/-!
# Literals are read exactly

However long its digits and its exponent are, a literal is scanned as one number and evaluates to the double that is
nearest to its value (`literal_nearest`).
-/
namespace Calculator

variable {q : ℚ} {rank : Nat} {t : Text}

/-! ## Reading -/

/-- A literal evaluates to the double at the rank that its value rounds to, which may be infinite. -/
theorem calculate_rounded [Platform] (r : Registry) (h : LiteralFor t q) (hq : RoundsTo (q * quantaPerUnit) rank) :
    calculate r t = .ok (.atRank false rank) := by
  have hread := readNumber?_of_denotes h.denotes hq
  refine (calculate_word r h.denotes.word fun position => ⟨_, fun _ => .number rfl hread, fun budget => ?_⟩).1
  rw [evalWithin]

/-- **Literals are read exactly.**  A literal is one number and the end, and it evaluates to the double nearest to its
value, to the one with the even significand if two are equally near: never to a negative one, to infinity from half a
step behind the last finite double on, and to zero up to half a step behind zero. -/
theorem literal_nearest [Platform] (r : Registry) (t : Text) (q : ℚ) (h : LiteralFor t q) :
    scan t = ⟨[⟨.number, t, 0⟩, .endMark t.length], none⟩ ∧
    ∃ x : Binary64, calculate r t = .ok x ∧ x.isNegative = false ∧ (q < 2 ^ 1024 - 2 ^ 970 → x.Nearest q) ∧
      (x = .infinite false ↔ 2 ^ 1024 - 2 ^ 970 ≤ q) ∧ (x = .zero false ↔ q ≤ 1 / 2 ^ 1075) := by
  refine ⟨scan_word h.denotes.word, ?_⟩
  have hunit : (0 : ℚ) < quantaPerUnit := Nat.cast_pos.2 quantaPerUnit_pos
  obtain ⟨rank, hround⟩ := exists_roundsTo (mul_nonneg h.nonneg hunit.le)
  refine ⟨.atRank false rank, calculate_rounded r h hround, ?_⟩
  rw [← rankLimit_le_iff_value hround, ← eq_zero_iff_value hround, ← not_le, ← rankLimit_le_iff_value hround]
  by_cases hrank : rank < rankLimit
  · rw [Binary64.atRank, dif_pos hrank]
    refine ⟨rfl, fun _ => @Binary64.nearest_of_roundsTo _ ⟨rank, hrank⟩ h.nonneg hround, ?_, ?_⟩
    · exact iff_of_false (fun hinfinite => by cases hinfinite) (Nat.not_le.2 hrank)
    · rw [Binary64.zero, Binary64.finite.injEq, Fin.mk.injEq, and_iff_right rfl]
  · rw [Binary64.atRank, dif_neg hrank]
    refine ⟨rfl, fun hlt => absurd (Nat.not_lt.1 hrank) hlt, iff_of_true rfl (Nat.not_lt.1 hrank), ?_⟩
    exact iff_of_false (fun hinfinite => by cases hinfinite) fun hzero => hrank (by rw [hzero]; decide)

/-- `9007199254740993` is halfway between two doubles, and the one before it has the even significand. -/
theorem literal_nearest_halfway :
    let t := "9007199254740993".toList
    let x := Binary64.finite false ⟨0x4340000000000000, by decide⟩
    LiteralFor t 9007199254740993 ∧ calculate .builtin t = .ok x ∧ x.Nearest 9007199254740993 := by
  intro t x
  have hliteral : LiteralFor t 9007199254740993 := by
    have hwhole := LiteralFor.whole (w := t) (List.all_eq_true.1 (by decide)) (by decide) .absent
    rw [List.append_nil, zpow_zero, mul_one] at hwhole
    have hdigits : ofDigits t = 9007199254740993 := by decide
    rw [hdigits] at hwhole
    exact_mod_cast hwhole
  have hx : calculate .builtin t = .ok x := by decide +kernel
  obtain ⟨-, y, hy, -, hnearest, -⟩ := literal_nearest .builtin t _ hliteral
  obtain rfl : x = y := by
    rw [hx] at hy
    exact Except.ok.inj hy
  have hlimit : 9007199254740993 + 2 ^ 970 < 2 ^ 1024 := by decide +kernel
  have hlimitq := (Nat.cast_lt (α := ℚ)).2 hlimit
  simp only [Nat.cast_add, Nat.cast_pow, Nat.cast_ofNat] at hlimitq
  exact ⟨hliteral, hx, hnearest (lt_sub_iff_add_lt.2 hlimitq)⟩

end Calculator
