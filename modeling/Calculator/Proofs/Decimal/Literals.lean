import Calculator.Proofs.Decimal.Layout
/-!
# Number literals and their values

The grammar of number literals, with the exact value that each is for: digits with at most one point among or around
them, then perhaps a letter `e`, a sign and digits.  The words that the scanner takes for numbers are the literals of
this grammar (`word_number_iff`), and each is read as its value (`LiteralFor.denotes`).
-/
namespace Calculator

/-- The exponent parts of literals, and the powers of ten that they are for. -/
inductive ExponentFor : Text → Int → Prop
  | absent : ExponentFor [] 0
  | unsigned {mark : Char} {ds : Text} : mark = 'e' ∨ mark = 'E' → AllDigits ds → ds ≠ [] →
      ExponentFor (mark :: ds) (ofDigits ds)
  | positive {mark : Char} {ds : Text} : mark = 'e' ∨ mark = 'E' → AllDigits ds → ds ≠ [] →
      ExponentFor (mark :: '+' :: ds) (ofDigits ds)
  | negative {mark : Char} {ds : Text} : mark = 'e' ∨ mark = 'E' → AllDigits ds → ds ≠ [] →
      ExponentFor (mark :: '-' :: ds) (-(ofDigits ds : Int))

/-- The number literals, and the values that they are for. -/
inductive LiteralFor : Text → ℚ → Prop
  | whole {w tail : Text} {e : Int} : AllDigits w → w ≠ [] → ExponentFor tail e →
      LiteralFor (w ++ tail) (ofDigits w * 10 ^ e)
  | point {w f tail : Text} {e : Int} : AllDigits w → AllDigits f → w ≠ [] ∨ f ≠ [] → ExponentFor tail e →
      LiteralFor (w ++ '.' :: f ++ tail) (ofDigits (w ++ f) / 10 ^ f.length * 10 ^ e)

/-- A number literal, whatever its value. -/
def NumberLiteral (t : Text) : Prop := ∃ q, LiteralFor t q

variable {t : Text} {q : ℚ} {e : Int}

/-! ## Literals are read as their values -/

theorem ExponentFor.readExponent?_eq (h : ExponentFor t e) : Decimal.readExponent? t = some e := by
  cases h with
  | absent => rfl
  | unsigned hmark hds hne =>
    simp only [Decimal.readExponent?, hmark, if_true]
    split
    · exact absurd rfl (Decimal.ne_cons_of_allDigits hds (by decide))
    · exact absurd rfl (Decimal.ne_cons_of_allDigits hds (by decide))
    · rw [readDigits?_eq hds hne]
      rfl
  | positive hmark hds hne =>
    simp only [Decimal.readExponent?, hmark, if_true, readDigits?_eq hds hne]
    rfl
  | negative hmark hds hne =>
    simp only [Decimal.readExponent?, hmark, if_true, readDigits?_eq hds hne]
    rfl

/-- A literal without exponent, moved by its exponent. -/
theorem MantissaFor.denotes_append {m : Text} (h : MantissaFor m q) (ht : ExponentFor t e) :
    Denotes (m ++ t) (q * 10 ^ e) := by
  have hread := ht.readExponent?_eq
  cases ht with
  | absent =>
    rw [List.append_nil, zpow_zero, mul_one]
    exact h.denotes
  | unsigned hmark hds hne => exact h.denotes_exponent hmark (.inl rfl) hds hne hread
  | positive hmark hds hne => exact h.denotes_exponent hmark (.inr (.inl rfl)) hds hne hread
  | negative hmark hds hne => exact h.denotes_exponent hmark (.inr (.inr rfl)) hds hne hread

/-- **A literal is a number word and is read as its value.** -/
theorem LiteralFor.denotes (h : LiteralFor t q) : Denotes t q := by
  cases h with
  | whole hw hne ht => exact (mantissaFor_whole hw hne).denotes_append ht
  | @point w f tail e hw hf hne ht =>
    have hpoint := (mantissaFor_point hw hf hne).denotes_append ht
    rw [zpow_neg, zpow_natCast, ← div_eq_mul_inv] at hpoint
    exact hpoint

theorem LiteralFor.nonneg (h : LiteralFor t q) : 0 ≤ q := by
  cases h with
  | whole => positivity
  | point => positivity

/-! ## Number words are literals -/

theorem Mantissa.numberLiteral {m : Text} (h : Mantissa m) (ht : ExponentFor t e) : NumberLiteral (m ++ t) := by
  cases h with
  | whole hw hne => exact ⟨_, .whole hw hne ht⟩
  | point hw hf hne => exact ⟨_, .point hw hf hne ht⟩

theorem LiteralPhase.Reads.numberLiteral {phase : LiteralPhase} (h : phase.Reads t)
    (hcomplete : phase.isComplete = true) : NumberLiteral t := by
  cases h with
  | whole hw hne =>
    rw [← List.append_nil t]
    exact (Mantissa.whole hw hne).numberLiteral .absent
  | fraction hw hf hne =>
    rw [← List.append_nil (_ ++ _)]
    exact (Mantissa.point hw hf hne).numberLiteral .absent
  | exponentMark | exponentSign => cases hcomplete
  | exponent hm hmark hs hds hne =>
    rcases hs with rfl | rfl | rfl
    · exact hm.numberLiteral (.unsigned hmark hds hne)
    · exact hm.numberLiteral (.positive hmark hds hne)
    · exact hm.numberLiteral (.negative hmark hds hne)

/-- **The number words are the literals.** -/
theorem word_number_iff : Word .number t ↔ NumberLiteral t := by
  constructor
  · intro h
    obtain ⟨phase, hreads, hcomplete⟩ := h.exists_reads
    exact hreads.numberLiteral hcomplete
  · rintro ⟨q, h⟩
    exact h.denotes.word

end Calculator
