import Calculator.Token.Scan
/-!
# How the scanner goes on

At a character the scanner does one of four things: it takes the character into the token at hand, it finds that token
to be no number, it refuses a point behind a number, or it completes the token and goes on as between two tokens
(`scanFrom_absorb`, `scanFrom_broken`, `scanFrom_refused`, `scanFrom_closed`).  Between two tokens there are four ways
to begin (`begin_cases`).  What is proved of the scanner is proved along these cases (`scan_induction`).
-/
namespace Calculator

/-! ## Blank characters

Nothing that a token may hold is blank.  There are few blanks, so it is enough to look at each. -/

def blankPoints : List Nat :=
  [0x9, 0xA, 0xB, 0xC, 0xD, 0x1C, 0x1D, 0x1E, 0x1F, 0x20, 0x85, 0xA0, 0x1680, 0x2000, 0x2001, 0x2002, 0x2003, 0x2004,
    0x2005, 0x2006, 0x2007, 0x2008, 0x2009, 0x200A, 0x2028, 0x2029, 0x202F, 0x205F, 0x3000]

theorem inRanges_cons {n low high : Nat} {rest : List (Nat × Nat)} (h : inRanges n ((low, high) :: rest) = true) :
    (low ≤ n ∧ n ≤ high) ∨ inRanges n rest = true := by
  rw [inRanges] at h
  split at h
  · cases h
  · split at h
    · exact .inl ⟨by omega, ‹_›⟩
    · exact .inr h

theorem mem_blankPoints {c : Char} (h : isBlank c = true) : c.toNat ∈ blankPoints := by
  unfold isBlank blankRanges at h
  simp only [blankPoints, List.mem_cons, List.not_mem_nil, or_false]
  repeat' (rcases inRanges_cons h with ⟨hlow, hhigh⟩ | h; · omega)
  cases h

theorem not_isBlank_of_inRanges {ranges : List (Nat × Nat)} {c : Char}
    (hranges : ∀ n ∈ blankPoints, inRanges n ranges = false) (h : inRanges c.toNat ranges = true) :
    isBlank c = false := by
  cases hb : isBlank c with
  | false => rfl
  | true =>
    rw [hranges c.toNat (mem_blankPoints hb)] at h
    cases h

theorem not_isBlank_of_isNameChar {c : Char} (h : isNameChar c = true) : isBlank c = false := by
  simp only [isNameChar, isAlphanumeric, isLetter, Bool.or_eq_true, beq_iff_eq] at h
  rcases h with (h | h) | rfl
  · exact not_isBlank_of_inRanges (by decide +kernel) h
  · exact not_isBlank_of_inRanges (by decide +kernel) h
  · decide

/-! ## The characters of number literals -/

def digits : Text := ['0', '1', '2', '3', '4', '5', '6', '7', '8', '9']

def literalChars : Text := ['.', 'e', 'E', '+', '-'] ++ digits

theorem forall_mem_of_all {p : Char → Prop} [DecidablePred p] {t : Text} (h : t.all (fun c => decide (p c)) = true) :
    ∀ c ∈ t, p c :=
  fun c hc => of_decide_eq_true (List.all_eq_true.1 h c hc)

theorem mem_digits {c : Char} (h : c.isDigit = true) : c ∈ digits := by
  obtain ⟨hlow, hhigh⟩ := Char.isDigit_iff_toNat.1 h
  have hall : ∀ n, n < 58 → 48 ≤ n → Char.ofNat n ∈ digits := by decide
  rw [← Char.ofNat_toNat c]
  exact hall c.toNat (Nat.lt_succ_of_le hhigh) hlow

theorem mem_literalChars_of_isDigit {c : Char} (h : c.isDigit = true) : c ∈ literalChars :=
  List.mem_append_right _ (mem_digits h)

namespace LiteralPhase

variable {phase longer : LiteralPhase} {c : Char}

/-- **One more character of a literal**: what it is, and what it makes of the literal. -/
theorem next?_eq_some (h : phase.next? c = some longer) :
    (c.isDigit = true ∧
      ((phase = .whole ∧ longer = .whole) ∨ (phase = .fraction ∧ longer = .fraction) ∨
        (phase = .exponentMark ∧ longer = .exponent) ∨ (phase = .exponentSign ∧ longer = .exponent) ∨
        (phase = .exponent ∧ longer = .exponent))) ∨
    (c = '.' ∧ phase = .whole ∧ longer = .fraction) ∨
    ((c = 'e' ∨ c = 'E') ∧ (phase = .whole ∨ phase = .fraction) ∧ longer = .exponentMark) ∨
    ((c = '+' ∨ c = '-') ∧ phase = .exponentMark ∧ longer = .exponentSign) := by
  unfold next? next?.exponentMark? at h
  cases phase <;> grind

theorem mem_literalChars (h : phase.next? c = some longer) : c ∈ literalChars := by
  rcases next?_eq_some h with ⟨hc, -⟩ | ⟨rfl, -⟩ | ⟨rfl | rfl, -⟩ | ⟨rfl | rfl, -⟩
  · exact mem_literalChars_of_isDigit hc
  all_goals decide

end LiteralPhase

theorem not_isBlank_of_mem_literalChars {c : Char} (h : c ∈ literalChars) : isBlank c = false := by
  have hall : ∀ c ∈ literalChars, isBlank c = false := forall_mem_of_all (by decide)
  exact hall c h

/-! ## Tokens at hand -/

namespace Pending

def text : Pending → Text
  | between => []
  | number _ _ read | name _ read => read.reverse

/-- Where the token at hand starts, or the next one may, for a scanner at a place. -/
def startFrom (position : Nat) : Pending → Nat
  | between => position
  | number _ start _ | name start _ => start

/-- The token at hand is what stands directly before a place. -/
structure Holds (pending : Pending) (position : Nat) : Prop where
  position_eq : position = pending.startFrom position + pending.text.length
  text_ne : pending ≠ between → pending.text ≠ []
  not_blank : ∀ c ∈ pending.text, isBlank c = false

variable {pending longer : Pending} {position : Nat} {c : Char}

theorem holds_between (position : Nat) : between.Holds position :=
  ⟨rfl, fun h => absurd rfl h, fun _ h => by cases h⟩

/-- **One more character of the token at hand.** -/
theorem absorb?_eq_some (h : pending.absorb? c = some longer) :
    longer.text = pending.text ++ [c] ∧ longer ≠ between ∧ pending ≠ between ∧
      (∀ position position', longer.startFrom position = pending.startFrom position') ∧ isBlank c = false := by
  cases pending with
  | between => cases h
  | number phase start read =>
    obtain ⟨next, hnext, rfl⟩ := Option.map_eq_some_iff.1 h
    exact ⟨List.reverse_cons, nofun, nofun, fun _ _ => rfl,
      not_isBlank_of_mem_literalChars (LiteralPhase.mem_literalChars hnext)⟩
  | name start read =>
    rw [absorb?] at h
    split at h
    · cases h
      exact ⟨List.reverse_cons, nofun, nofun, fun _ _ => rfl, not_isBlank_of_isNameChar ‹_›⟩
    · cases h

theorem Holds.absorb (hp : pending.Holds position) (h : pending.absorb? c = some longer) :
    longer.Holds (position + 1) := by
  obtain ⟨htext, -, -, hstart, hc⟩ := absorb?_eq_some h
  refine ⟨?_, fun _ => ?_, fun d hd => ?_⟩
  · rw [hstart (position + 1) position, htext, List.length_append, ← Nat.add_assoc, ← hp.position_eq]
    rfl
  · rw [htext]
    exact List.append_ne_nil_of_right_ne_nil _ (List.cons_ne_nil _ _)
  · rw [htext] at hd
    rcases List.mem_append.1 hd with hd | hd
    · exact hp.not_blank d hd
    · rw [List.mem_singleton.1 hd]
      exact hc

theorem close_eq_ok {closed : List Token} (h : pending.close = .ok closed) :
    (pending = between ∧ closed = []) ∨
    (pending ≠ between ∧ ∃ t, closed = [t] ∧ t.kind ≠ .exprEnd ∧ t.lexeme = pending.text ∧
      ∀ position, t.position = pending.startFrom position) := by
  cases pending with
  | between =>
    cases h
    exact .inl ⟨rfl, rfl⟩
  | number phase start read =>
    rw [close] at h
    split at h
    · cases h
      exact .inr ⟨nofun, _, rfl, nofun, rfl, fun _ => rfl⟩
    · cases h
  | name start read =>
    cases h
    exact .inr ⟨nofun, _, rfl, nofun, rfl, fun _ => rfl⟩

theorem close_eq_error {e : ScanError} (h : pending.close = .error e) :
    pending ≠ between ∧ e.fault = .invalidNumber pending.text ∧
      ∀ position, e.position = pending.startFrom position := by
  cases pending with
  | between => cases h
  | number phase start read =>
    rw [close] at h
    split at h
    · cases h
    · cases h
      exact ⟨nofun, rfl, fun _ => rfl⟩
  | name start read => cases h

end Pending

/-! ## One character -/

/-- The token at hand is one character. -/
structure Pending.Opened (pending : Pending) (position : Nat) (c : Char) : Prop where
  ne_between : pending ≠ .between
  text_eq : pending.text = [c]
  start_eq : ∀ position', pending.startFrom position' = position

theorem Pending.Opened.holds {pending : Pending} {position : Nat} {c : Char} (h : pending.Opened position c)
    (hc : isBlank c = false) : pending.Holds (position + 1) := by
  refine ⟨?_, fun _ => ?_, fun d hd => ?_⟩
  · rw [h.start_eq, h.text_eq]; rfl
  · rw [h.text_eq]; exact List.cons_ne_nil _ _
  · rw [h.text_eq] at hd
    rw [List.mem_singleton.1 hd]
    exact hc

/-- **What a character begins** between two tokens. -/
theorem begin_cases (position : Nat) (c : Char) (next : Option Char) :
    (isBlank c = true ∧ begin position c next = .ok ([], .between)) ∨
    (isBlank c = false ∧ ∃ inside, begin position c next = .ok ([], inside) ∧ inside.Opened position c) ∨
    (isBlank c = false ∧ ∃ kind, TokenKind.ofSymbol? c = some kind ∧
      begin position c next = .ok ([⟨kind, [c], position⟩], .between)) ∨
    begin position c next = .error ⟨.unexpectedCharacter c, position⟩ := by
  unfold begin
  cases isBlank c with
  | true => exact .inl ⟨rfl, rfl⟩
  | false =>
    refine .inr ?_
    cases LiteralPhase.start? c next with
    | some phase => exact .inl ⟨rfl, _, rfl, ⟨nofun, rfl, fun _ => rfl⟩⟩
    | none =>
      cases isLetter c with
      | true => exact .inl ⟨rfl, _, rfl, ⟨nofun, rfl, fun _ => rfl⟩⟩
      | false =>
        cases TokenKind.ofSymbol? c with
        | some kind => exact .inr (.inl ⟨rfl, kind, rfl, rfl⟩)
        | none => exact .inr (.inr rfl)

/-- Only a point depends on the character behind it. -/
theorem begin_congr {position : Nat} {c : Char} {next next' : Option Char} (h : c = '.' → next' = next) :
    begin position c next' = begin position c next := by
  have hstart : LiteralPhase.start? c next' = LiteralPhase.start? c next := by
    by_cases hc : c = '.'
    · rw [h hc]
    · simp only [LiteralPhase.start?, hc, false_and]
  rw [begin, begin, hstart]

/-- A point starts a number, and the digit behind it belongs to that number. -/
theorem begin_point {position : Nat} {next : Option Char} {started : List Token} {inside : Pending}
    (h : begin position '.' next = .ok (started, inside)) :
    inside = .number .fraction position ['.'] ∧ ∃ d, next = some d ∧ d.isDigit = true := by
  have hblank : isBlank '.' = false := by decide
  have hdigit : Char.isDigit '.' = false := by decide
  have hletter : isLetter '.' = false := by decide +kernel
  simp only [begin, LiteralPhase.start?, hblank, hdigit, hletter, Bool.false_eq_true, if_false, true_and] at h
  cases next with
  | none => cases h
  | some d =>
    cases hd : d.isDigit with
    | true =>
      simp only [Option.any_some, hd, if_true, Except.ok.injEq, Prod.mk.injEq] at h
      exact ⟨h.2.symm, d, rfl, hd⟩
    | false =>
      simp only [Option.any_some, hd, Bool.false_eq_true, if_false] at h
      cases h

theorem ofSymbol?_ne_exprEnd {c : Char} : TokenKind.ofSymbol? c ≠ some .exprEnd := by
  unfold TokenKind.ofSymbol?
  split <;> nofun

variable {pending longer : Pending} {position : Nat} {c : Char} {rest : Text} {closed : List Token}

/-! ## The rest of a text -/

theorem scanFrom_nil (hclose : pending.close = .ok closed) :
    scanFrom pending position [] = ⟨closed ++ [.endMark position], none⟩ := by
  rw [scanFrom, hclose]

theorem scanFrom_absorb (h : pending.absorb? c = some longer) :
    scanFrom pending position (c :: rest) = scanFrom longer (position + 1) rest := by
  rw [scanFrom, scanStep, h]
  rfl

theorem scanFrom_broken {e : ScanError} (h : pending.absorb? c = none) (hclose : pending.close = .error e) :
    scanFrom pending position (c :: rest) = ⟨[], some e⟩ := by
  rw [scanFrom, scanStep, h]
  simp only [hclose]

theorem scanFrom_refused (h : pending.absorb? c = none) (hclose : pending.close = .ok closed)
    (hrefuse : pending.refuses c = true) :
    scanFrom pending position (c :: rest) = ⟨closed, some ⟨.unexpectedCharacter c, position⟩⟩ := by
  rw [scanFrom, scanStep, h]
  simp only [hclose, hrefuse, if_true]

theorem scanFrom_begin {started : List Token} {inside : Pending}
    (h : begin position c rest.head? = .ok (started, inside)) :
    scanFrom .between position (c :: rest) = (scanFrom inside (position + 1) rest).prepend started := by
  rw [scanFrom, scanStep]
  simp only [Pending.absorb?, Pending.close, Pending.refuses, Bool.false_eq_true, if_false, h, List.nil_append]

theorem scanFrom_unexpected {e : ScanError} (h : begin position c rest.head? = .error e) :
    scanFrom .between position (c :: rest) = ⟨[], some e⟩ := by
  rw [scanFrom, scanStep]
  simp only [Pending.absorb?, Pending.close, Pending.refuses, Bool.false_eq_true, if_false, h]

/-- A completed token is followed by what follows between two tokens. -/
theorem scanFrom_closed (h : pending.absorb? c = none) (hclose : pending.close = .ok closed)
    (hrefuse : pending.refuses c = false) :
    scanFrom pending position (c :: rest) = (scanFrom .between position (c :: rest)).prepend closed := by
  rw [scanFrom, scanStep, h]
  simp only [hclose, hrefuse, Bool.false_eq_true, if_false]
  cases hbegin : begin position c rest.head? with
  | error e =>
    rw [scanFrom_unexpected hbegin]
    simp only [Source.prepend, List.append_nil]
  | ok begun =>
    obtain ⟨started, inside⟩ := begun
    rw [scanFrom_begin hbegin]
    simp only [Source.prepend, List.append_assoc]

/-! ## Induction -/

/-- **Induction along the scanner**, on the text that is left.  Only between two tokens, and where a character is taken,
is anything assumed of the text behind it; a completed token leads back to the case between two tokens. -/
theorem scan_induction {P : Pending → Nat → Text → Prop} (nil : ∀ pending position, P pending position [])
    (between : ∀ position c rest, (∀ pending, P pending (position + 1) rest) → P .between position (c :: rest))
    (absorb : ∀ pending longer position c rest, pending.absorb? c = some longer → P longer (position + 1) rest →
      P pending position (c :: rest))
    (broken : ∀ pending position c rest e, pending.absorb? c = none → pending.close = .error e →
      P pending position (c :: rest))
    (refused : ∀ pending position c rest closed, pending.absorb? c = none → pending.close = .ok closed →
      pending.refuses c = true → P pending position (c :: rest))
    (closed : ∀ pending position c rest closed, pending.absorb? c = none → pending.close = .ok closed →
      pending.refuses c = false → P .between position (c :: rest) → P pending position (c :: rest))
    (pending : Pending) (position : Nat) (rest : Text) : P pending position rest := by
  induction rest generalizing pending position with
  | nil => exact nil pending position
  | cons c rest ih =>
    cases habsorb : pending.absorb? c with
    | some longer => exact absorb pending longer position c rest habsorb (ih longer (position + 1))
    | none =>
      cases hclose : pending.close with
      | error e => exact broken pending position c rest e habsorb hclose
      | ok ts =>
        cases hrefuse : pending.refuses c with
        | true => exact refused pending position c rest ts habsorb hclose hrefuse
        | false =>
          have hbetween := between position c rest fun pending => ih pending (position + 1)
          exact closed pending position c rest ts habsorb hclose hrefuse hbetween

end Calculator
