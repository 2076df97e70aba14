import Calculator.Proofs.Token.Literal
import Mathlib.Algebra.Ring.Nat
import Mathlib.Data.List.TakeWhile
/-!
# Rows of digits

The numeral of a number is a row of digits that denotes it, and zeros behind a row multiply by ten.
-/
namespace Calculator

theorem ofDigits_eq (t : Text) : ofDigits t = Nat.ofDigitChars 10 t 0 := rfl

theorem ofDigits_append (s t : Text) : ofDigits (s ++ t) = ofDigits s * 10 ^ t.length + ofDigits t := by
  rw [ofDigits_eq, Nat.ofDigitChars_append, Nat.ofDigitChars_eq_ofDigitChars_zero, Nat.mul_comm]
  rfl

theorem ofDigits_zeros (n : Nat) : ofDigits (List.replicate n '0') = 0 := by
  rw [ofDigits_eq, Nat.ofDigitChars_replicate_zero, Nat.mul_zero]

theorem ofDigits_append_zeros (t : Text) (n : Nat) : ofDigits (t ++ List.replicate n '0') = ofDigits t * 10 ^ n := by
  rw [ofDigits_append, ofDigits_zeros, List.length_replicate, Nat.add_zero]

theorem ofDigits_zeros_append (n : Nat) (t : Text) : ofDigits (List.replicate n '0' ++ t) = ofDigits t := by
  rw [ofDigits_append, ofDigits_zeros, Nat.zero_mul, Nat.zero_add]

theorem AllDigits.append {s t : Text} (hs : AllDigits s) (ht : AllDigits t) : AllDigits (s ++ t) := by
  intro c hc
  rcases List.mem_append.1 hc with hc | hc
  · exact hs c hc
  · exact ht c hc

theorem allDigits_zeros (n : Nat) : AllDigits (List.replicate n '0') := by
  intro c hc
  rw [List.eq_of_mem_replicate hc]
  decide

/-! ## Numerals -/

theorem allDigits_numeral (n : Nat) : AllDigits (numeral n) :=
  fun _ hc => Nat.isDigit_of_mem_toDigits (by decide) (by decide) hc

theorem numeral_ne_nil (n : Nat) : numeral n ≠ [] := Nat.toDigits_ne_nil

theorem ofDigits_numeral (n : Nat) : ofDigits (numeral n) = n := Nat.ofDigitChars_ten_toDigits

theorem readDigits?_eq {t : Text} (h : AllDigits t) (hne : t ≠ []) : Decimal.readDigits? t = some (ofDigits t) := by
  rw [Decimal.readDigits?, if_pos ⟨hne, List.all_eq_true.2 h⟩]

theorem readDigits?_zeroPadded (width n : Nat) : Decimal.readDigits? (zeroPadded width (numeral n)) = some n := by
  have hdigits : AllDigits (zeroPadded width (numeral n)) := (allDigits_zeros _).append (allDigits_numeral n)
  have hne : zeroPadded width (numeral n) ≠ [] := List.append_ne_nil_of_right_ne_nil _ (numeral_ne_nil n)
  rw [readDigits?_eq hdigits hne, zeroPadded, ofDigits_zeros_append, ofDigits_numeral]

/-! ## Trailing zeros -/

/-- A row without the zeros at its end. -/
def withoutZeros (t : Text) : Text := (t.reverse.dropWhile (· == '0')).reverse

theorem withoutZeros_append (t : Text) : ∃ n, t = withoutZeros t ++ List.replicate n '0' := by
  have hzero : ∀ c ∈ t.reverse.takeWhile (· == '0'), c = '0' := by
    intro c hc
    have h := List.mem_takeWhile_imp hc
    exact eq_of_beq h
  have hzeros := List.eq_replicate_of_mem hzero
  refine ⟨(t.reverse.takeWhile (· == '0')).length, ?_⟩
  calc t = (t.reverse.takeWhile (· == '0') ++ t.reverse.dropWhile (· == '0')).reverse := by
        rw [List.takeWhile_append_dropWhile, List.reverse_reverse]
    _ = withoutZeros t ++ (t.reverse.takeWhile (· == '0')).reverse := List.reverse_append
    _ = withoutZeros t ++ List.replicate (t.reverse.takeWhile (· == '0')).length '0' := by
        conv_lhs => rw [hzeros, List.reverse_replicate]

theorem AllDigits.withoutZeros {t : Text} (h : AllDigits t) : AllDigits (withoutZeros t) := by
  obtain ⟨n, hn⟩ := withoutZeros_append t
  intro c hc
  refine h c ?_
  rw [hn]
  exact List.mem_append_left _ hc

theorem withoutZeros_ne_nil {t : Text} (h : ofDigits t ≠ 0) : withoutZeros t ≠ [] := by
  intro hnil
  obtain ⟨n, hn⟩ := withoutZeros_append t
  rw [hnil, List.nil_append] at hn
  rw [hn, ofDigits_zeros] at h
  exact h rfl

end Calculator
