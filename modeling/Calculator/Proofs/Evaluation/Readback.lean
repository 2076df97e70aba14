import Calculator.Answer
import Calculator.Function.Builtin
import Calculator.Proofs.Binary64.Whole
import Calculator.Proofs.Decimal.Layout
import Calculator.Proofs.Decimal.Shortest
import Calculator.Proofs.Expr.Accepted
/-!
# Results can be typed back

A result is a number literal or one of the names of the doubles that have no digits, perhaps with a minus sign in front.
Such a text is scanned as its words, parsed as a leaf or the negation of one, and evaluated to what the leaf stands for.
For a literal this is the double that its value rounds to, and so a result evaluates to the double that it was
written for (`result_reads_back`).
-/
namespace Calculator

variable {kind : TokenKind} {t : Text} {x : Binary64} {q : ℚ}

/-! ## Texts of one word -/

theorem scan_word (h : Word kind t) : scan t = ⟨[⟨kind, t, 0⟩, .endMark t.length], none⟩ := by
  have hword := @Word.scanFrom_eq 0 kind t [] h fun _ => nofun
  rw [List.append_nil, Nat.zero_add] at hword
  rw [scan, hword, scanFrom_nil rfl]
  rfl

theorem scan_negated (h : Word kind t) :
    scan ('-' :: t) = ⟨[⟨.minus, ['-'], 0⟩, ⟨kind, t, 1⟩, .endMark (1 + t.length : Nat)], none⟩ := by
  have hword := @Word.scanFrom_eq 1 kind t [] h fun _ => nofun
  rw [List.append_nil] at hword
  rw [scan, scanFrom_symbol rfl, hword, scanFrom_nil rfl]
  rfl

/-- A token that is an expression on its own. -/
def IsLeaf (token : Token) (leaf : Expr) : Prop := ∀ n, Phrase nestingLimit .primary n [token] leaf []

theorem IsLeaf.parse_eq {token : Token} {leaf : Expr} (h : IsLeaf token leaf) (hend : token.isEnd = false)
    (position : Int) : parse ⟨[token, .endMark position], none⟩ = .ok leaf := by
  have hphrase : Phrase nestingLimit .sum 1 [token] leaf [] := .ofProduct (.ofPower (.ofFactorial (.ofPrimary (h 1))))
  refine parse_of_sentence position (fun u hu => ?_) ⟨by decide, hphrase⟩
  rw [List.mem_singleton.1 hu]
  exact hend

theorem IsLeaf.parse_negated {token : Token} {leaf : Expr} (h : IsLeaf token leaf) (hend : token.isEnd = false)
    (position : Int) : parse ⟨[⟨.minus, ['-'], 0⟩, token, .endMark position], none⟩ = .ok (.unary .neg leaf) := by
  have hsigned : Phrase nestingLimit .primary 1 [⟨.minus, ['-'], 0⟩, token] (.unary .neg leaf) [] :=
    .sign rfl (by decide) (h 2)
  have hphrase := Phrase.ofProduct (.ofPower (.ofFactorial (.ofPrimary hsigned)))
  refine parse_of_sentence position (fun u hu => ?_) ⟨by decide, hphrase⟩
  rcases List.mem_cons.1 hu with rfl | hu
  · rfl
  · rw [List.mem_singleton.1 hu]
    exact hend

theorem Word.isEnd_eq_false (h : Word kind t) (position : Int) : Token.isEnd ⟨kind, t, position⟩ = false := by
  refine Token.isEnd_eq_false ?_
  cases h with
  | number | name => nofun
  | symbol hc =>
    rintro rfl
    exact ofSymbol?_ne_exprEnd hc

/-- **A word that stands for a double** evaluates to it, and with a minus sign in front to its negation. -/
theorem calculate_word [Platform] (r : Registry) (h : Word kind t)
    (hleaf : ∀ position, ∃ leaf, IsLeaf ⟨kind, t, position⟩ leaf ∧ ∀ budget, evalWithin r budget leaf = .ok x) :
    calculate r t = .ok x ∧ calculate r ('-' :: t) = .ok x.neg := by
  constructor
  · obtain ⟨leaf, hphrase, hvalue⟩ := hleaf 0
    simp only [calculate, calculateSource, scan_word h, hphrase.parse_eq (h.isEnd_eq_false 0), evaluate, hvalue]
  · obtain ⟨leaf, hphrase, hvalue⟩ := hleaf 1
    have hnegated : evaluate r (.unary .neg leaf) = .ok x.neg := by
      rw [evaluate, evalWithin, if_neg Platform.stackBudget_pos.ne', hvalue]
      rfl
    simp only [calculate, calculateSource, scan_negated h, hphrase.parse_negated (h.isEnd_eq_false 1), hnegated]

theorem calculate_name [Platform] (r : Registry) (h : Word .identifier t) (hx : constant? t = some x) :
    calculate r t = .ok x ∧ calculate r ('-' :: t) = .ok x.neg := by
  refine calculate_word r h fun position => ⟨_, fun _ => .constant rfl nofun, fun budget => ?_⟩
  rw [evalWithin, resolveConstant, hx]

/-! ## Literals -/

theorem readNumber?_of_denotes {rank : Nat} (h : Denotes t q) (hq : RoundsTo (q * quantaPerUnit) rank) :
    readNumber? t = some (.atRank false rank) := by
  obtain ⟨d, hread, rfl⟩ := h.read
  rw [h.word.readNumber?_eq, hread, Option.map_some, Decimal.toBinary64_of_roundsTo hq]

/-- A literal for a number that rounds to a finite double. -/
theorem calculate_literal [Platform] (r : Registry) {rank : Fin rankLimit} (h : Denotes t q)
    (hq : RoundsTo (q * quantaPerUnit) rank) :
    calculate r t = .ok (.finite false rank) ∧ calculate r ('-' :: t) = .ok (.finite true rank) := by
  have hread : readNumber? t = some (.finite false rank) := by
    rw [readNumber?_of_denotes h hq, Binary64.atRank, dif_pos rank.isLt]
  refine calculate_word r h.word fun position => ⟨_, fun _ => .number rfl hread, fun budget => ?_⟩
  rw [evalWithin]

/-! ## Results -/

theorem signedNumeral_natCast (n : Nat) : signedNumeral n = numeral n := by
  rw [signedNumeral, if_neg (by omega), Int.natAbs_natCast]

theorem signedNumeral_neg (n : Nat) : signedNumeral (-(n : Int)) = if ¬ n = 0 then '-' :: numeral n else numeral n := by
  by_cases h : n = 0
  · rw [h, if_neg (by simp)]
    rfl
  · rw [signedNumeral, if_pos (by omega), if_pos h, Int.natAbs_neg, Int.natAbs_natCast]

theorem word_name {c : Char} {more : Text} (hc : isLetter c = true) (hmore : more.all isNameChar = true) :
    Word .identifier (c :: more) :=
  .name hc (List.all_eq_true.1 hmore)

theorem word_inf : Word .identifier "inf".toList := word_name (by decide) (by decide)

theorem word_nan : Word .identifier "nan".toList := word_name (by decide) (by decide)

theorem constant?_inf : constant? "inf".toList = some (.infinite false) := rfl

theorem constant?_nan : constant? "nan".toList = some .nan := rfl

namespace Binary64

variable {negative : Bool} {rank : Fin rankLimit}

theorem wholePart_eq_zero (h : (finite negative rank).isIntegral = true) :
    (finite negative rank).wholePart = 0 ↔ rank.val = 0 := by
  have hsize := wholePart_mul h
  constructor
  · intro hzero
    by_contra hrank
    have hpos := sizeAt_pos (Nat.pos_of_ne_zero hrank)
    rw [← hsize, hzero, Nat.zero_mul] at hpos
    exact Nat.lt_irrefl 0 hpos
  · intro hrank
    rw [hrank, sizeAt_zero] at hsize
    exact (Nat.mul_eq_zero.1 hsize).resolve_right quantaPerUnit_pos.ne'

theorem isIntegral_zero (negative : Bool) :
    (zero negative).isIntegral = true ∧ (zero negative).wholePart < wholeLimit := by
  cases negative <;> decide +kernel

/-- A finite double is written as a literal for a number that rounds to it, and with a minus sign in front of that if
it is negative and no zero. -/
theorem resultText_finite (negative : Bool) (rank : Fin rankLimit) :
    ∃ t q, Denotes t q ∧ RoundsTo (q * quantaPerUnit) rank ∧
      (finite negative rank).resultText = if negative ∧ rank.val ≠ 0 then '-' :: t else t := by
  by_cases hwhole : (finite negative rank).isIntegral = true ∧ (finite negative rank).wholePart < wholeLimit
  · refine ⟨_, _, denotes_numeral (finite negative rank).wholePart, ?_, ?_⟩
    · rw [← Nat.cast_mul, wholePart_mul hwhole.1]
      exact .size rank
    · rw [resultText, if_pos hwhole]
      simp only [← wholePart_eq_zero hwhole.1, ne_eq]
      cases negative with
      | false => simp only [isNegative, Bool.false_eq_true, if_false, false_and, signedNumeral_natCast]
      | true => simp only [isNegative, if_true, true_and, signedNumeral_neg]
  · have hrank : rank.val ≠ 0 := by
      intro hzero
      obtain rfl : rank = ⟨0, by decide⟩ := Fin.ext hzero
      exact hwhole (isIntegral_zero negative)
    have hround := Decimal.roundsTo_shortest (Nat.pos_of_ne_zero hrank)
    refine ⟨_, _, Decimal.denotes_text (Decimal.coefficient_ne_zero hround hrank), hround, ?_⟩
    rw [resultText, if_neg hwhole, literalText]
    cases negative <;> simp [hrank]

end Binary64

theorem calculate_resultText [Platform] (r : Registry) (x : Binary64) :
    calculate r x.resultText = .ok (if x = .zero true then .zero false else x) := by
  cases x with
  | nan => exact (calculate_name r word_nan constant?_nan).1
  | infinite negative =>
    cases negative with
    | false => exact (calculate_name r word_inf constant?_inf).1
    | true => exact (calculate_name r word_inf constant?_inf).2
  | finite negative rank =>
    obtain ⟨t, q, ht, hq, htext⟩ := Binary64.resultText_finite negative rank
    obtain ⟨hplain, hnegated⟩ := calculate_literal r ht hq
    rw [htext]
    by_cases hminus : negative = true ∧ rank.val ≠ 0
    · obtain ⟨rfl, hrank⟩ := hminus
      have hne : Binary64.finite true rank ≠ .zero true := by
        intro h
        cases h
        exact hrank rfl
      rw [if_pos ⟨rfl, hrank⟩, hnegated, if_neg hne]
    · rw [if_neg hminus, hplain]
      cases negative with
      | false => rw [if_neg nofun]
      | true =>
        obtain rfl : rank = ⟨0, by decide⟩ := Fin.ext (by simpa using hminus)
        rfl

/-- **A result can be typed back.**  The text of a double evaluates to that double, but for the negative zero, which
comes back as the positive one; so an answer that is a result is its own answer. -/
theorem result_reads_back [Platform] (r : Registry) :
    (∀ x : Binary64, calculate r x.resultText = .ok (if x = .zero true then .zero false else x)) ∧
    ∀ code t : Text, answer r code = ⟨true, t⟩ → answer r t = ⟨true, t⟩ := by
  refine ⟨calculate_resultText r, fun code t h => ?_⟩
  unfold answer at h
  cases hcode : calculate r code with
  | error e =>
    rw [hcode] at h
    cases h
  | ok x =>
    rw [hcode] at h
    cases h
    rw [answer, calculate_resultText]
    by_cases hx : x = .zero true
    · rw [hx]
      decide +kernel
    · rw [if_neg hx]

/-- A third is written with sixteen digits. -/
theorem result_reads_back_third :
    answer .builtin "1/3".toList = ⟨true, "0.3333333333333333".toList⟩ ∧
      answer .builtin "0.3333333333333333".toList = ⟨true, "0.3333333333333333".toList⟩ := by
  have hthird : answer .builtin "1/3".toList = ⟨true, "0.3333333333333333".toList⟩ := by decide +kernel
  exact ⟨hthird, (result_reads_back .builtin).2 _ _ hthird⟩

end Calculator
