import Calculator.Decimal.Reading
import Calculator.Proofs.Token.Scanning
import Mathlib.Data.List.TakeDrop
/-!
# Number literals

A number literal has the shape that belongs to the phase it has come to (`LiteralPhase.Reads`), and each character keeps
it so.  A literal can be read if its phase may end (`Decimal.isSome_readUnsigned?`): the number is its digits, moved by
its exponent and the digits behind its point.  Nothing else that a number token may carry is in the way of that
(`LiteralText.readNumber?_eq`).
-/
namespace Calculator

/-! ## Shapes -/

def AllDigits (t : Text) : Prop := ∀ c ∈ t, c.isDigit = true

/-- Digits, at least one, and perhaps a point among or around them. -/
inductive Mantissa : Text → Prop
  | whole {w : Text} : AllDigits w → w ≠ [] → Mantissa w
  | point {w f : Text} : AllDigits w → AllDigits f → w ≠ [] ∨ f ≠ [] → Mantissa (w ++ '.' :: f)

namespace LiteralPhase

/-- The texts that a literal may have come to in a phase. -/
inductive Reads : LiteralPhase → Text → Prop
  | whole {w : Text} : AllDigits w → w ≠ [] → Reads .whole w
  | fraction {w f : Text} : AllDigits w → AllDigits f → w ≠ [] ∨ f ≠ [] → Reads .fraction (w ++ '.' :: f)
  | exponentMark {m : Text} {e : Char} : Mantissa m → e = 'e' ∨ e = 'E' → Reads .exponentMark (m ++ [e])
  | exponentSign {m : Text} {e s : Char} : Mantissa m → e = 'e' ∨ e = 'E' → s = '+' ∨ s = '-' →
      Reads .exponentSign (m ++ [e, s])
  | exponent {m sign ds : Text} {e : Char} : Mantissa m → e = 'e' ∨ e = 'E' → sign = [] ∨ sign = ['+'] ∨ sign = ['-'] →
      AllDigits ds → ds ≠ [] → Reads .exponent (m ++ e :: (sign ++ ds))

end LiteralPhase

variable {phase longer : LiteralPhase} {c : Char} {t : Text}

theorem AllDigits.snoc (h : AllDigits t) (hc : c.isDigit = true) : AllDigits (t ++ [c]) := by
  intro d hd
  rcases List.mem_append.1 hd with hd | hd
  · exact h d hd
  · rw [List.mem_singleton.1 hd]
    exact hc

theorem allDigits_singleton (hc : c.isDigit = true) : AllDigits [c] := by
  intro d hd
  rw [List.mem_singleton.1 hd]
  exact hc

theorem LiteralPhase.Reads.mantissa (h : phase.Reads t) (hphase : phase = .whole ∨ phase = .fraction) : Mantissa t := by
  cases h with
  | whole hw hne => exact .whole hw hne
  | fraction hw hf hne => exact .point hw hf hne
  | _ => rcases hphase with h | h <;> cases h

/-- **One more character** keeps a literal in shape. -/
theorem LiteralPhase.Reads.snoc (h : phase.Reads t) (hnext : phase.next? c = some longer) :
    longer.Reads (t ++ [c]) := by
  rcases next?_eq_some hnext with ⟨hc, hphase⟩ | ⟨rfl, rfl, rfl⟩ | ⟨hc, hphase, rfl⟩ | ⟨hc, rfl, rfl⟩
  · rcases hphase with ⟨rfl, rfl⟩ | ⟨rfl, rfl⟩ | ⟨rfl, rfl⟩ | ⟨rfl, rfl⟩ | ⟨rfl, rfl⟩
    · cases h with
      | whole hw hne => exact .whole (hw.snoc hc) (List.append_ne_nil_of_left_ne_nil hne _)
    · cases h with
      | @fraction w f hw hf hne =>
        rw [List.append_assoc, List.cons_append]
        exact .fraction hw (hf.snoc hc) (.inr (List.append_ne_nil_of_right_ne_nil _ (List.cons_ne_nil _ _)))
    · cases h with
      | exponentMark hm he =>
        rw [List.append_assoc]
        exact .exponent hm he (.inl rfl) (allDigits_singleton hc) (List.cons_ne_nil _ _)
    · cases h with
      | @exponentSign m e s hm he hs =>
        rw [List.append_assoc]
        exact @Reads.exponent m [s] [c] e hm he (.inr (hs.imp (by rintro rfl; rfl) (by rintro rfl; rfl)))
          (allDigits_singleton hc) (List.cons_ne_nil _ _)
    · cases h with
      | exponent hm he hs hds hne =>
        rw [List.append_assoc, List.cons_append, List.append_assoc]
        exact .exponent hm he hs (hds.snoc hc) (List.append_ne_nil_of_left_ne_nil hne _)
  · cases h with
    | whole hw hne => exact .fraction hw nofun (.inl hne)
  · exact .exponentMark (h.mantissa hphase) hc
  · cases h with
    | exponentMark hm he =>
      rw [List.append_assoc]
      exact .exponentSign hm he hc

/-! ## Reading a literal -/

namespace Decimal

theorem span_digits {w tail : Text} (hw : AllDigits w) (htail : ∀ c, tail.head? = some c → c.isDigit = false) :
    (w ++ tail).span Char.isDigit = (w, tail) := by
  rw [List.span_eq_takeWhile_dropWhile, List.takeWhile_append_of_pos hw, List.dropWhile_append_of_pos hw]
  cases tail with
  | nil => rw [List.takeWhile_nil, List.dropWhile_nil, List.append_nil]
  | cons c rest =>
    have hc : ¬ c.isDigit = true := by rw [htail c rfl]; decide
    rw [List.takeWhile_cons_of_neg hc, List.dropWhile_cons_of_neg hc, List.append_nil]

theorem readDigits?_isSome {ds : Text} (h : AllDigits ds) (hne : ds ≠ []) : (readDigits? ds).isSome := by
  rw [readDigits?, if_pos ⟨hne, List.all_eq_true.2 h⟩]
  rfl

/-- What does not belong to the digits and the point of a literal in front of it. -/
structure BehindMantissa (t : Text) : Prop where
  not_digit : ∀ c, t.head? = some c → c.isDigit = false
  not_point : ∀ c, t.head? = some c → c ≠ '.'

/-- What may stand behind the digits and the point of a literal. -/
structure ExponentPart (t : Text) : Prop extends BehindMantissa t where
  isSome : (readExponent? t).isSome

theorem behindMantissa_mark {e : Char} (he : e = 'e' ∨ e = 'E') (rest : Text) : BehindMantissa (e :: rest) := by
  constructor
  · rintro c hc
    cases hc
    rcases he with rfl | rfl <;> decide
  · rintro c hc
    cases hc
    rcases he with rfl | rfl <;> decide

theorem exponentPart_nil : ExponentPart [] := ⟨⟨nofun, nofun⟩, rfl⟩

theorem ne_cons_of_allDigits {ds rest : Text} (h : AllDigits ds) (hc : c.isDigit = false) : ds ≠ c :: rest := by
  rintro rfl
  rw [h c List.mem_cons_self] at hc
  cases hc

theorem exponentPart_cons {e : Char} {sign ds : Text} (he : e = 'e' ∨ e = 'E')
    (hs : sign = [] ∨ sign = ['+'] ∨ sign = ['-']) (hds : AllDigits ds) (hne : ds ≠ []) :
    ExponentPart (e :: (sign ++ ds)) := by
  refine ⟨behindMantissa_mark he _, ?_⟩
  have hread := readDigits?_isSome hds hne
  rcases hs with rfl | rfl | rfl
  · simp only [readExponent?, he, if_true, List.nil_append]
    split
    · exact absurd rfl (ne_cons_of_allDigits hds (by decide))
    · exact absurd rfl (ne_cons_of_allDigits hds (by decide))
    · rwa [Option.isSome_map]
  · simp only [readExponent?, he, if_true, List.cons_append, List.nil_append, Option.isSome_map]
    exact hread
  · simp only [readExponent?, he, if_true, List.cons_append, List.nil_append, Option.isSome_map]
    exact hread

theorem splitFraction_of_not_point {t : Text} (h : ∀ c, t.head? = some c → c ≠ '.') : splitFraction t = ([], t) := by
  unfold splitFraction
  split
  · exact absurd rfl (h '.' rfl)
  · rfl

theorem readUnsigned?_whole {w tail : Text} (hw : AllDigits w) (hne : w ≠ []) (htail : BehindMantissa tail) :
    readUnsigned? (w ++ tail) = (readExponent? tail).map fun e => ⟨ofDigits w, e⟩ := by
  rw [readUnsigned?, span_digits hw htail.not_digit]
  simp only [splitFraction_of_not_point htail.not_point, List.isEmpty_eq_false_iff.2 hne, Bool.false_and,
    Bool.false_eq_true, if_false, List.append_nil, List.length_nil, Int.natCast_zero, Int.sub_zero]

theorem readUnsigned?_point {w f tail : Text} (hw : AllDigits w) (hf : AllDigits f) (hne : w ≠ [] ∨ f ≠ [])
    (htail : BehindMantissa tail) :
    readUnsigned? (w ++ '.' :: (f ++ tail)) =
      (readExponent? tail).map fun e => ⟨ofDigits (w ++ f), e - f.length⟩ := by
  have hpoint : ∀ c, ('.' :: (f ++ tail)).head? = some c → c.isDigit = false := by
    rintro c hc
    cases hc
    decide
  have hempty : (w.isEmpty && f.isEmpty) = false := by
    rcases hne with hne | hne
    · rw [List.isEmpty_eq_false_iff.2 hne, Bool.false_and]
    · rw [List.isEmpty_eq_false_iff.2 hne, Bool.and_false]
  rw [readUnsigned?, span_digits hw hpoint]
  simp only [splitFraction, span_digits hf htail.not_digit, hempty, Bool.false_eq_true, if_false]

theorem isSome_readUnsigned?_append {m tail : Text} (hm : Mantissa m) (htail : BehindMantissa tail) :
    (readUnsigned? (m ++ tail)).isSome = (readExponent? tail).isSome := by
  cases hm with
  | whole hw hne => rw [readUnsigned?_whole hw hne htail, Option.isSome_map]
  | point hw hf hne =>
    rw [List.append_assoc, List.cons_append, readUnsigned?_point hw hf hne htail, Option.isSome_map]

/-- **A literal can be read if it may end.** -/
theorem isSome_readUnsigned? (h : phase.Reads t) : (readUnsigned? t).isSome = phase.isComplete := by
  cases h with
  | whole hw hne =>
    have := isSome_readUnsigned?_append (.whole hw hne) exponentPart_nil.toBehindMantissa
    rwa [List.append_nil] at this
  | fraction hw hf hne =>
    have := isSome_readUnsigned?_append (.point hw hf hne) exponentPart_nil.toBehindMantissa
    rwa [List.append_nil] at this
  | exponentMark hm he =>
    rw [isSome_readUnsigned?_append hm (behindMantissa_mark he _)]
    simp only [readExponent?, he, if_true]
    rfl
  | exponentSign hm he hs =>
    rw [isSome_readUnsigned?_append hm (behindMantissa_mark he _)]
    simp only [readExponent?, he, if_true]
    rcases hs with rfl | rfl <;> rfl
  | exponent hm he hs hds hne =>
    have hpart := exponentPart_cons he hs hds hne
    rw [isSome_readUnsigned?_append hm hpart.toBehindMantissa]
    exact hpart.isSome

end Decimal

/-! ## Literals as number tokens

No literal has margins, underscores, a sign in front or digits of other scripts, and none is a name. -/

def literalStarts : Text := '.' :: digits

structure LiteralText (t : Text) : Prop where
  head : ∃ c rest, t = c :: rest ∧ c ∈ literalStarts
  mem : ∀ c ∈ t, c ∈ literalChars

theorem LiteralText.append {u : Text} (h : LiteralText t) (hu : ∀ c ∈ u, c ∈ literalChars) : LiteralText (t ++ u) := by
  obtain ⟨first, rest, rfl, hfirst⟩ := h.head
  refine ⟨⟨first, rest ++ u, rfl, hfirst⟩, fun d hd => ?_⟩
  rcases List.mem_append.1 hd with hd | hd
  · exact h.mem d hd
  · exact hu d hd

theorem AllDigits.mem_literalChars (h : AllDigits t) : ∀ c ∈ t, c ∈ literalChars :=
  fun c hc => mem_literalChars_of_isDigit (h c hc)

theorem AllDigits.literalText (h : AllDigits t) (hne : t ≠ []) : LiteralText t := by
  cases t with
  | nil => exact absurd rfl hne
  | cons c rest => exact ⟨⟨c, rest, rfl, List.mem_cons_of_mem _ (mem_digits (h c List.mem_cons_self))⟩, h.mem_literalChars⟩

theorem Mantissa.literalText (h : Mantissa t) : LiteralText t := by
  cases h with
  | whole hw hne => exact hw.literalText hne
  | @point w f hw hf _ =>
    have hpoint : ∀ c ∈ '.' :: f, c ∈ literalChars := by
      intro c hc
      rcases List.mem_cons.1 hc with rfl | hc
      · decide
      · exact hf.mem_literalChars c hc
    cases w with
    | nil => exact ⟨⟨'.', f, rfl, List.mem_cons_self⟩, hpoint⟩
    | cons c w => exact (hw.literalText (List.cons_ne_nil _ _)).append hpoint

/-- Whatever phase it has come to, a literal is a text of number characters. -/
theorem LiteralPhase.Reads.literalText (h : phase.Reads t) : LiteralText t := by
  have hmark : ∀ {e : Char}, e = 'e' ∨ e = 'E' → e ∈ literalChars := by rintro e (rfl | rfl) <;> decide
  cases h with
  | whole hw hne => exact hw.literalText hne
  | fraction hw hf hne => exact (Mantissa.point hw hf hne).literalText
  | exponentMark hm he =>
    refine hm.literalText.append fun c hc => ?_
    rw [List.mem_singleton.1 hc]
    exact hmark he
  | exponentSign hm he hs =>
    refine hm.literalText.append fun c hc => ?_
    simp only [List.mem_cons, List.not_mem_nil, or_false] at hc
    rcases hc with rfl | rfl
    · exact hmark he
    · rcases hs with rfl | rfl <;> decide
  | exponent hm he hs hds _ =>
    refine hm.literalText.append fun c hc => ?_
    simp only [List.mem_cons, List.mem_append] at hc
    rcases hc with rfl | hc | hc
    · exact hmark he
    · rcases hs with rfl | rfl | rfl
      · cases hc
      · rw [List.mem_singleton.1 hc]
        decide
      · rw [List.mem_singleton.1 hc]
        decide
    · exact hds.mem_literalChars c hc

namespace LiteralText

theorem trimMargins_eq (h : ∀ c ∈ t, c ∈ literalChars) : Decimal.trimMargins t = t := by
  have hall : ∀ c ∈ literalChars, Decimal.isMargin c = false := forall_mem_of_all (by decide)
  have hdrop : ∀ u : Text, (∀ c ∈ u, c ∈ literalChars) → u.dropWhile Decimal.isMargin = u
    | [], _ => rfl
    | c :: rest, hu => List.dropWhile_cons_of_neg (by rw [hall c (hu c List.mem_cons_self)]; decide)
  rw [Decimal.trimMargins, hdrop t h, hdrop t.reverse fun c hc => h c (List.mem_reverse.1 hc), List.reverse_reverse]

theorem map_asciiDigit_eq (h : ∀ c ∈ t, c ∈ literalChars) : t.map Decimal.asciiDigit = t := by
  have hall : ∀ c ∈ literalChars, Decimal.asciiDigit c = c := forall_mem_of_all (by decide)
  refine (List.map_congr_left fun c hc => hall c (h c hc)).trans ?_
  exact List.map_id' t

theorem dropUnderscores?_eq : ∀ (afterDigit : Bool) (t : Text), (∀ c ∈ t, c ∈ literalChars) →
    Decimal.dropUnderscores? afterDigit t = some t
  | _, [], _ => rfl
  | afterDigit, c :: rest, h => by
    have hc : c ≠ '_' := by
      rintro rfl
      exact absurd (h '_' List.mem_cons_self) (by decide)
    have ih := dropUnderscores?_eq c.isDigit rest fun d hd => h d (List.mem_cons_of_mem _ hd)
    simp [Decimal.dropUnderscores?, hc, ih]

theorem splitSign_eq (h : LiteralText t) : Decimal.splitSign t = (false, t) := by
  obtain ⟨c, rest, rfl, hc⟩ := h.head
  unfold Decimal.splitSign
  split
  · rename_i heq
    cases heq
    exact absurd hc (by decide)
  · rename_i heq
    cases heq
    exact absurd hc (by decide)
  · rfl

theorem readName?_eq (h : LiteralText t) : Decimal.readName? false t = none := by
  obtain ⟨c, rest, rfl, hc⟩ := h.head
  have hall : ∀ c ∈ literalStarts, c.toLower ≠ 'i' ∧ c.toLower ≠ 'n' := forall_mem_of_all (by decide)
  obtain ⟨hi, hn⟩ := hall c hc
  simp [Decimal.readName?, hi, hn]

theorem readNumber?_eq (h : LiteralText t) :
    readNumber? t = (Decimal.readUnsigned? t).map (·.toBinary64 false) := by
  rw [readNumber?, trimMargins_eq h.mem, map_asciiDigit_eq h.mem, dropUnderscores?_eq false t h.mem]
  simp only [h.splitSign_eq, h.readName?_eq]

end LiteralText

end Calculator
