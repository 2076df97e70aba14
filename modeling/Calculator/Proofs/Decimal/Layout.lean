import Calculator.Decimal.Layout
import Calculator.Proofs.Decimal.Digits
import Calculator.Proofs.Decimal.Value
import Calculator.Proofs.Token.Words
/-!
# How decimals are written and read

A positive decimal is written as one number literal, with a point or with an exponent, and that literal denotes the value
of the decimal (`Decimal.denotes_text`).
-/
namespace Calculator

/-- A number literal for a value. -/
structure Denotes (t : Text) (q : ℚ) : Prop where
  word : Word .number t
  read : ∃ d, Decimal.readUnsigned? t = some d ∧ d.value = q

/-- A literal without exponent for a value, which an exponent behind it moves. -/
structure MantissaFor (m : Text) (q : ℚ) : Prop where
  mantissa : Mantissa m
  read : ∃ c k : Nat, (c : ℚ) * 10 ^ (-(k : Int)) = q ∧ ∀ tail, Decimal.ExponentPart tail →
    Decimal.readUnsigned? (m ++ tail) = (Decimal.readExponent? tail).map fun e => ⟨c, e - k⟩

variable {m t : Text} {q : ℚ}

/-! ## Digits and a point -/

theorem mantissaFor_whole {w : Text} (hw : AllDigits w) (hne : w ≠ []) : MantissaFor w (ofDigits w) := by
  refine ⟨.whole hw hne, ofDigits w, 0, ?_, fun tail htail => ?_⟩
  · rw [Int.natCast_zero, Int.neg_zero, zpow_zero, mul_one]
  · rw [Decimal.readUnsigned?_whole hw hne htail.toBehindMantissa]
    simp only [Int.natCast_zero, Int.sub_zero]

theorem mantissaFor_point {w f : Text} (hw : AllDigits w) (hf : AllDigits f) (hne : w ≠ [] ∨ f ≠ []) :
    MantissaFor (w ++ '.' :: f) (ofDigits (w ++ f) * 10 ^ (-(f.length : Int))) := by
  refine ⟨.point hw hf hne, ofDigits (w ++ f), f.length, rfl, fun tail htail => ?_⟩
  rw [List.append_assoc, List.cons_append, Decimal.readUnsigned?_point hw hf hne htail.toBehindMantissa]

namespace MantissaFor

theorem denotes (h : MantissaFor m q) : Denotes m q := by
  obtain ⟨hm, c, k, hq, hread⟩ := h
  constructor
  · cases hm with
    | whole hw hne => exact .number (.whole hw hne) rfl
    | point hw hf hne => exact .number (.fraction hw hf hne) rfl
  · have hwhole := hread [] Decimal.exponentPart_nil
    rw [List.append_nil] at hwhole
    refine ⟨⟨c, 0 - k⟩, hwhole, ?_⟩
    rw [Decimal.value, Int.zero_sub, hq]

theorem denotes_exponent (h : MantissaFor m q) {mark : Char} {sign ds : Text} {e : Int}
    (hmark : mark = 'e' ∨ mark = 'E') (hs : sign = [] ∨ sign = ['+'] ∨ sign = ['-']) (hds : AllDigits ds) (hne : ds ≠ [])
    (he : Decimal.readExponent? (mark :: (sign ++ ds)) = some e) : Denotes (m ++ mark :: (sign ++ ds)) (q * 10 ^ e) := by
  obtain ⟨hm, c, k, hq, hread⟩ := h
  refine ⟨.number (.exponent hm hmark hs hds hne) rfl, ⟨c, e - k⟩, ?_, ?_⟩
  · rw [hread _ (Decimal.exponentPart_cons hmark hs hds hne), he]
    rfl
  · rw [Decimal.value, ← hq, Int.sub_eq_add_neg, zpow_add₀ (by norm_num), mul_assoc, mul_comm (10 ^ e)]

end MantissaFor

/-! ## Both layouts -/

namespace Decimal

/-- Digits with a point among or around them. -/
theorem mantissaFor_pointed (ht : AllDigits t) (hne : t ≠ []) (point : Int) :
    MantissaFor (pointed t point) (ofDigits t * 10 ^ (point - t.length)) := by
  rw [pointed]
  split
  · have hzero : AllDigits ['0'] := allDigits_zeros 1
    have hdigits : AllDigits (List.replicate (-point).toNat '0' ++ t) := (allDigits_zeros _).append ht
    have h := mantissaFor_point hzero hdigits (.inl (List.cons_ne_nil _ _))
    have hvalue : ofDigits (['0'] ++ (List.replicate (-point).toNat '0' ++ t)) = ofDigits t := by
      rw [← List.append_assoc]
      exact ofDigits_zeros_append ((-point).toNat + 1) t
    have hexponent : -((List.replicate (-point).toNat '0' ++ t).length : Int) = point - t.length := by
      rw [List.length_append, List.length_replicate]
      omega
    rw [hvalue, hexponent] at h
    exact h
  · split
    · have hdigits : AllDigits (t ++ List.replicate (point.toNat - t.length) '0') := ht.append (allDigits_zeros _)
      have h := mantissaFor_point hdigits (allDigits_zeros 1) (.inl (List.append_ne_nil_of_left_ne_nil hne _))
      have hexponent : point - t.length = ((point.toNat - t.length : Nat) : Int) := by omega
      have hvalue : ((ofDigits (t ++ List.replicate (point.toNat - t.length) '0' ++ List.replicate 1 '0') : Nat) : ℚ) *
          10 ^ (-((List.replicate 1 '0').length : Int)) = ofDigits t * 10 ^ (point - t.length) := by
        rw [ofDigits_append_zeros, ofDigits_append_zeros, hexponent, zpow_natCast, zpow_neg, List.length_replicate]
        push_cast
        field_simp
      rw [hvalue] at h
      exact h
    · have htake : AllDigits (t.take point.toNat) := fun c hc => ht c (List.mem_of_mem_take hc)
      have hdrop : AllDigits (t.drop point.toNat) := fun c hc => ht c (List.mem_of_mem_drop hc)
      have hstart : t.take point.toNat ≠ [] := by
        rw [← List.length_pos_iff, List.length_take]
        omega
      have h := mantissaFor_point htake hdrop (.inl hstart)
      have hexponent : -((t.drop point.toNat).length : Int) = point - t.length := by
        rw [List.length_drop]
        omega
      rw [List.take_append_drop, hexponent] at h
      exact h

theorem readExponent?_signed (exponent : Int) :
    readExponent? ('e' :: ([if exponent < 0 then '-' else '+'] ++ zeroPadded 2 (numeral exponent.natAbs))) =
      some exponent := by
  by_cases h : exponent < 0
  · simp only [readExponent?, if_pos h, List.singleton_append, true_or, if_true, readDigits?_zeroPadded, Option.map_some,
      Int.ofNat_eq_natCast]
    congr 1
    omega
  · simp only [readExponent?, if_neg h, List.singleton_append, true_or, if_true, readDigits?_zeroPadded, Option.map_some,
      Int.ofNat_eq_natCast]
    congr 1
    omega

/-- Digits with an exponent behind them. -/
theorem denotes_scientific (ht : AllDigits t) (hne : t ≠ []) (exponent : Int) :
    Denotes (scientific t exponent) (ofDigits t * 10 ^ (exponent + 1 - t.length)) := by
  have hmantissa : MantissaFor (t.take 1 ++ if t.length ≤ 1 then [] else '.' :: t.drop 1)
      (ofDigits t * 10 ^ (1 - (t.length : Int))) := by
    obtain ⟨c, more, rfl⟩ := List.exists_cons_of_ne_nil hne
    cases more with
    | nil =>
      have h := mantissaFor_whole ht hne
      simpa using h
    | cons d more =>
      have htail : AllDigits (d :: more) := fun x hx => ht x (List.mem_cons_of_mem c hx)
      have h := mantissaFor_point (allDigits_singleton (ht c List.mem_cons_self)) htail (.inl (List.cons_ne_nil _ _))
      have hexponent : -((d :: more).length : Int) = 1 - ((c :: d :: more).length : Int) := by
        simp only [List.length_cons]
        omega
      rw [hexponent] at h
      simpa using h
  have hdigits : AllDigits (zeroPadded 2 (numeral exponent.natAbs)) := (allDigits_zeros _).append (allDigits_numeral _)
  have hsign : [if exponent < 0 then '-' else '+'] = ['+'] ∨ [if exponent < 0 then '-' else '+'] = ['-'] := by
    split
    · exact .inr rfl
    · exact .inl rfl
  have h := hmantissa.denotes_exponent (.inl rfl) (.inr hsign) hdigits
    (List.append_ne_nil_of_right_ne_nil _ (numeral_ne_nil _)) (readExponent?_signed exponent)
  have hvalue : (ofDigits t : ℚ) * 10 ^ (1 - (t.length : Int)) * 10 ^ exponent =
      ofDigits t * 10 ^ (exponent + 1 - t.length) := by
    rw [mul_assoc, ← zpow_add₀ (by norm_num)]
    congr 2
    omega
  rw [hvalue] at h
  exact h

theorem text_eq (d : Decimal) : d.text =
    (let leading := d.exponent + (numeral d.coefficient).length - 1
    if leastPointed ≤ leading ∧ leading < mostPointed then pointed (withoutZeros (numeral d.coefficient)) (leading + 1)
    else scientific (withoutZeros (numeral d.coefficient)) leading) := rfl

/-- **A positive decimal is written as a literal for its value.** -/
theorem denotes_text {d : Decimal} (h : d.coefficient ≠ 0) : Denotes d.text d.value := by
  have hnonzero : ofDigits (numeral d.coefficient) ≠ 0 := by rwa [ofDigits_numeral]
  have hdigits := (allDigits_numeral d.coefficient).withoutZeros
  have hne := withoutZeros_ne_nil hnonzero
  have hvalue : (ofDigits (withoutZeros (numeral d.coefficient)) : ℚ) *
      10 ^ (d.exponent + (numeral d.coefficient).length - 1 + 1 - (withoutZeros (numeral d.coefficient)).length) =
        d.value := by
    obtain ⟨n, hn⟩ := withoutZeros_append (numeral d.coefficient)
    have hcoefficient : d.coefficient = ofDigits (withoutZeros (numeral d.coefficient)) * 10 ^ n := by
      rw [← ofDigits_append_zeros, ← hn, ofDigits_numeral]
    have hlength := congrArg List.length hn
    rw [List.length_append, List.length_replicate] at hlength
    have hexponent : d.exponent + (numeral d.coefficient).length - 1 + 1 -
        (withoutZeros (numeral d.coefficient)).length = (n : Int) + d.exponent := by omega
    rw [hexponent, zpow_add₀ (by norm_num), ← mul_assoc, zpow_natCast, value]
    congr 1
    exact_mod_cast hcoefficient.symm
  rw [← hvalue, text_eq]
  dsimp only
  split
  · exact (mantissaFor_pointed hdigits hne _).denotes
  · exact denotes_scientific hdigits hne _

end Decimal

theorem denotes_numeral (n : Nat) : Denotes (numeral n) n := by
  have h := (mantissaFor_whole (allDigits_numeral n) (numeral_ne_nil n)).denotes
  rwa [ofDigits_numeral] at h

end Calculator
