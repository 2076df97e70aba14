import Calculator.Proofs.Token.Literal
/-!
# Words

Every token of a text but the end mark is a word of its kind: a number literal that may end, a name or a symbol
(`scan_words`).  In the other direction a word is scanned as one token wherever it stands, if nothing follows it that
the scanner would take into it (`Word.scanFrom_eq`).
-/
namespace Calculator

/-- The texts of the tokens of a kind. -/
inductive Word : TokenKind → Text → Prop
  | number {phase : LiteralPhase} {t : Text} : phase.Reads t → phase.isComplete = true → Word .number t
  | name {c : Char} {more : Text} : isLetter c = true → (∀ d ∈ more, isNameChar d = true) → Word .identifier (c :: more)
  | symbol {c : Char} {kind : TokenKind} : TokenKind.ofSymbol? c = some kind → Word kind [c]

/-- A number token has a number. -/
def Token.Readable (t : Token) : Prop := t.kind = .number → ∃ x, readNumber? t.lexeme = some x

theorem ofSymbol?_ne_number {c : Char} : TokenKind.ofSymbol? c ≠ some .number := by
  unfold TokenKind.ofSymbol?
  split <;> nofun

theorem ofSymbol?_ne_identifier {c : Char} : TokenKind.ofSymbol? c ≠ some .identifier := by
  unfold TokenKind.ofSymbol?
  split <;> nofun

theorem Word.exists_reads {t : Text} (h : Word .number t) :
    ∃ phase : LiteralPhase, phase.Reads t ∧ phase.isComplete = true := by
  generalize hkind : TokenKind.number = kind at h
  cases h with
  | number hreads hcomplete => exact ⟨_, hreads, hcomplete⟩
  | name => cases hkind
  | symbol hc =>
    rw [← hkind] at hc
    exact absurd hc ofSymbol?_ne_number

theorem Word.readNumber?_eq {t : Text} (h : Word .number t) :
    readNumber? t = (Decimal.readUnsigned? t).map (·.toBinary64 false) := by
  obtain ⟨phase, hreads, -⟩ := h.exists_reads
  exact hreads.literalText.readNumber?_eq

theorem Word.readNumber? {t : Text} (h : Word .number t) : ∃ x, readNumber? t = some x := by
  obtain ⟨phase, hreads, hcomplete⟩ := h.exists_reads
  obtain ⟨d, hd⟩ := Option.isSome_iff_exists.1 ((Decimal.isSome_readUnsigned? hreads).trans hcomplete)
  exact ⟨d.toBinary64 false, by rw [h.readNumber?_eq, hd]; rfl⟩

/-! ## Tokens are words -/

namespace Pending

/-- A number at hand has the shape of its phase, or it is a point before a digit; a name at hand is a name. -/
def Sound : Pending → Text → Prop
  | between, _ => True
  | number phase _ read, rest =>
    phase.Reads read.reverse ∨ (phase = .fraction ∧ read = ['.'] ∧ ∃ d, rest.head? = some d ∧ d.isDigit = true)
  | name _ read, _ => ∃ c more, read.reverse = c :: more ∧ isLetter c = true ∧ ∀ d ∈ more, isNameChar d = true

variable {pending longer : Pending} {rest : Text} {c : Char}

theorem Sound.absorb (h : pending.Sound (c :: rest)) (habsorb : pending.absorb? c = some longer) :
    longer.Sound rest := by
  cases pending with
  | between => cases habsorb
  | name start read =>
    rw [absorb?] at habsorb
    split at habsorb
    · rename_i hc
      cases habsorb
      obtain ⟨first, more, hread, hfirst, hmore⟩ := h
      refine ⟨first, more ++ [c], by rw [List.reverse_cons, hread]; rfl, hfirst, fun d hd => ?_⟩
      rcases List.mem_append.1 hd with hd | hd
      · exact hmore d hd
      · rw [List.mem_singleton.1 hd]
        exact hc
    · cases habsorb
  | number phase start read =>
    obtain ⟨next, hnext, rfl⟩ := Option.map_eq_some_iff.1 habsorb
    refine .inl ?_
    rw [List.reverse_cons]
    rcases h with hreads | ⟨rfl, rfl, d, hd, hdigit⟩
    · exact hreads.snoc hnext
    · cases hd
      have hfraction : LiteralPhase.fraction = next := by
        simpa [LiteralPhase.next?, hdigit] using hnext
      rw [← hfraction]
      have hpoint : AllDigits [] := fun _ hd => by cases hd
      exact .fraction hpoint (allDigits_singleton hdigit) (.inr (List.cons_ne_nil _ _))

/-- **A completed token is a word.** -/
theorem Sound.close {closed : List Token} (h : pending.Sound rest)
    (hstop : ∀ c, rest.head? = some c → pending.absorb? c = none) (hclose : pending.close = .ok closed) :
    ∀ t ∈ closed, Word t.kind t.lexeme := by
  intro t ht
  cases pending with
  | between =>
    cases hclose
    cases ht
  | name start read =>
    cases hclose
    obtain ⟨c, more, hread, hc, hmore⟩ := h
    rw [List.mem_singleton.1 ht]
    simp only [hread]
    exact .name hc hmore
  | number phase start read =>
    rw [Pending.close] at hclose
    split at hclose
    · rename_i hcomplete
      cases hclose
      rw [List.mem_singleton.1 ht]
      rcases h with hreads | ⟨rfl, rfl, d, hd, hdigit⟩
      · exact .number hreads hcomplete
      · -- the digit behind the point would have been taken
        have := hstop d hd
        simp [absorb?, LiteralPhase.next?, hdigit] at this
    · cases hclose

end Pending

theorem begin_sound {position : Nat} {c : Char} {rest : Text} {started : List Token} {inside : Pending}
    (h : begin position c rest.head? = .ok (started, inside)) :
    (∀ t ∈ started, Word t.kind t.lexeme) ∧ inside.Sound rest := by
  unfold begin at h
  split at h
  · cases h
    exact ⟨nofun, trivial⟩
  · split at h
    · rename_i phase hphase
      cases h
      refine ⟨nofun, ?_⟩
      unfold LiteralPhase.start? at hphase
      split at hphase
      · rename_i hdigit
        cases hphase
        exact .inl (.whole (allDigits_singleton hdigit) (List.cons_ne_nil _ _))
      · split at hphase
        · rename_i hpoint
          cases hphase
          obtain ⟨rfl, hnext⟩ := hpoint
          exact .inr ⟨rfl, rfl, (Option.any_eq_true _ _).1 hnext⟩
        · cases hphase
    · split at h
      · rename_i hletter
        cases h
        exact ⟨nofun, c, [], rfl, hletter, nofun⟩
      · split at h
        · rename_i kind hkind
          cases h
          refine ⟨fun t ht => ?_, trivial⟩
          rw [List.mem_singleton.1 ht]
          exact .symbol hkind
        · cases h

theorem scanFrom_words (pending : Pending) (position : Nat) (rest : Text) :
    pending.Sound rest → ∀ t ∈ (scanFrom pending position rest).tokens, t.kind ≠ .exprEnd → Word t.kind t.lexeme := by
  refine @scan_induction
    (fun pending position rest => pending.Sound rest →
      ∀ t ∈ (scanFrom pending position rest).tokens, t.kind ≠ .exprEnd → Word t.kind t.lexeme)
    ?_ ?_ ?_ ?_ ?_ ?_ pending position rest
  · intro pending position h t ht hk
    cases hclose : pending.close with
    | error e =>
      rw [scanFrom, hclose] at ht
      cases ht
    | ok closed =>
      rw [scanFrom_nil hclose] at ht
      rcases List.mem_append.1 ht with ht | ht
      · exact h.close (fun _ h => by cases h) hclose t ht
      · rw [List.mem_singleton.1 ht] at hk
        exact absurd rfl hk
  · intro position c rest ih _ t ht hk
    cases hbegin : begin position c rest.head? with
    | error e =>
      rw [scanFrom_unexpected hbegin] at ht
      cases ht
    | ok begun =>
      obtain ⟨started, inside⟩ := begun
      obtain ⟨hstarted, hinside⟩ := begin_sound hbegin
      rw [scanFrom_begin hbegin] at ht
      rcases List.mem_append.1 ht with ht | ht
      · exact hstarted t ht
      · exact ih inside hinside t ht hk
  · intro pending longer position c rest habsorb ih h t ht hk
    rw [scanFrom_absorb habsorb] at ht
    exact ih (h.absorb habsorb) t ht hk
  · intro pending position c rest e habsorb hclose _ t ht
    rw [scanFrom_broken habsorb hclose] at ht
    cases ht
  · intro pending position c rest closed habsorb hclose hrefuse h t ht _
    rw [scanFrom_refused habsorb hclose hrefuse] at ht
    exact h.close (fun d hd => by cases hd; exact habsorb) hclose t ht
  · intro pending position c rest closed habsorb hclose hrefuse ih h t ht hk
    rw [scanFrom_closed habsorb hclose hrefuse] at ht
    rcases List.mem_append.1 ht with ht | ht
    · exact h.close (fun d hd => by cases hd; exact habsorb) hclose t ht
    · exact ih trivial t ht hk

/-- **Every token of a text but the end mark is a word.** -/
theorem scan_words (code : Text) : ∀ t ∈ (scan code).tokens, t.kind ≠ .exprEnd → Word t.kind t.lexeme :=
  scanFrom_words .between 0 code trivial

/-- **Every number token of a text has a number.** -/
theorem scan_readable (code : Text) : ∀ t ∈ (scan code).tokens, t.Readable := by
  intro t ht hk
  have hword := scan_words code t ht (by rw [hk]; decide)
  rw [hk] at hword
  exact hword.readNumber?

/-! ## Words are scanned as tokens -/

/-- A character that no word takes in. -/
def Parts (c : Char) : Prop := c ∉ literalChars ∧ isNameChar c = false

variable {pending longer : Pending} {phase : LiteralPhase} {position : Nat} {kind : TokenKind} {c : Char} {t rest : Text}

theorem scanFrom_absorbs (h : t.foldlM Pending.absorb? pending = some longer) :
    scanFrom pending position (t ++ rest) = scanFrom longer (position + t.length) rest := by
  induction t generalizing pending position with
  | nil =>
    cases h
    rfl
  | cons c t ih =>
    obtain ⟨next, hnext, h⟩ := Option.bind_eq_some_iff.1 (List.foldlM_cons.symm.trans h)
    rw [List.cons_append, scanFrom_absorb hnext, ih h, List.length_cons, Nat.add_assoc, Nat.add_comm 1]

/-- A token at hand that can go no further is completed. -/
theorem scanFrom_complete {closed : List Token} (hclose : pending.close = .ok closed)
    (hrest : ∀ c, rest.head? = some c → pending.absorb? c = none ∧ pending.refuses c = false) :
    scanFrom pending position rest = (scanFrom .between position rest).prepend closed := by
  cases rest with
  | nil =>
    rw [scanFrom_nil hclose, scanFrom_nil rfl]
    rfl
  | cons c rest =>
    obtain ⟨habsorb, hrefuse⟩ := hrest c rfl
    exact scanFrom_closed habsorb hclose hrefuse

/-- A token that starts at a character and takes in some of those behind it. -/
theorem scanFrom_token {inside : Pending} {token : Token} (hbegin : begin position c (t ++ rest).head? = .ok ([], inside))
    (habsorb : t.foldlM Pending.absorb? inside = some longer) (hclose : longer.close = .ok [token])
    (hrest : ∀ d, rest.head? = some d → longer.absorb? d = none ∧ longer.refuses d = false) :
    scanFrom .between position (c :: t ++ rest) =
      (scanFrom .between (position + (c :: t).length) rest).prepend [token] := by
  rw [List.cons_append, scanFrom_begin hbegin, scanFrom_absorbs habsorb, scanFrom_complete hclose hrest,
    List.length_cons, Nat.add_assoc, Nat.add_comm 1]
  rfl

/-! ### Symbols and blanks -/

theorem scanFrom_blank (hc : isBlank c = true) :
    scanFrom .between position (c :: rest) = scanFrom .between (position + 1) rest := by
  have hbegin : begin position c rest.head? = .ok ([], .between) := by rw [begin, if_pos hc]
  rw [scanFrom_begin hbegin]
  rfl

def symbols : Text := ['+', '-', '*', '/', '%', '^', '!', '√', '(', ')', ',']

theorem mem_symbols (h : TokenKind.ofSymbol? c = some kind) : c ∈ symbols := by
  unfold TokenKind.ofSymbol? at h
  split at h <;> first | decide | cases h

theorem symbol_starts_nothing : ∀ c ∈ symbols, isBlank c = false ∧ c.isDigit = false ∧ c ≠ '.' ∧ isNameChar c = false :=
  forall_mem_of_all (by decide +kernel)

theorem isNameChar_of_isLetter (h : isLetter c = true) : isNameChar c = true := by
  rw [isNameChar, isAlphanumeric, h]
  rfl

theorem scanFrom_symbol (h : TokenKind.ofSymbol? c = some kind) :
    scanFrom .between position (c :: rest) = (scanFrom .between (position + 1) rest).prepend [⟨kind, [c], position⟩] := by
  obtain ⟨hblank, hdigit, hpoint, hname⟩ := symbol_starts_nothing c (mem_symbols h)
  have hletter : isLetter c = false := by
    refine Bool.eq_false_iff.2 fun hletter => ?_
    rw [isNameChar_of_isLetter hletter] at hname
    cases hname
  apply scanFrom_begin
  simp only [begin, LiteralPhase.start?, hblank, hdigit, hpoint, hletter, h, Bool.false_eq_true, if_false, false_and]

/-! ### Names -/

theorem absorbs_name {start : Nat} {read : Text} (h : ∀ d ∈ t, isNameChar d = true) :
    t.foldlM Pending.absorb? (.name start read) = some (.name start (t.reverse ++ read)) := by
  induction t generalizing read with
  | nil => rfl
  | cons d t ih =>
    have habsorb : (Pending.name start read).absorb? d = some (.name start (d :: read)) := by
      rw [Pending.absorb?, if_pos (h d List.mem_cons_self)]
    rw [List.foldlM_cons, habsorb]
    refine (ih fun e he => h e (List.mem_cons_of_mem d he)).trans ?_
    rw [List.reverse_cons, List.append_assoc]
    rfl

theorem start?_of_isLetter (hc : isLetter c = true) (next : Option Char) : LiteralPhase.start? c next = none := by
  have hdigit : c.isDigit = false := by
    have hall : ∀ c ∈ digits, isLetter c = false := forall_mem_of_all (by decide +kernel)
    refine Bool.eq_false_iff.2 fun hdigit => ?_
    rw [hall c (mem_digits hdigit)] at hc
    cases hc
  have hpoint : c ≠ '.' := by
    rintro rfl
    exact absurd hc (by decide +kernel)
  simp only [LiteralPhase.start?, hdigit, hpoint, Bool.false_eq_true, if_false, false_and]

theorem scanFrom_name (hc : isLetter c = true) (ht : ∀ d ∈ t, isNameChar d = true)
    (hrest : ∀ d, rest.head? = some d → isNameChar d = false) :
    scanFrom .between position (c :: t ++ rest) =
      (scanFrom .between (position + (c :: t).length) rest).prepend [⟨.identifier, c :: t, position⟩] := by
  have hbegin : begin position c (t ++ rest).head? = .ok ([], .name position [c]) := by
    rw [begin, if_neg (by rw [not_isBlank_of_isNameChar (isNameChar_of_isLetter hc)]; decide), start?_of_isLetter hc]
    simp only [hc, if_true]
  have hclose : (Pending.name position (t.reverse ++ [c])).close = .ok [⟨.identifier, c :: t, position⟩] := by
    rw [Pending.close, List.reverse_append, List.reverse_reverse]
    rfl
  refine scanFrom_token hbegin (absorbs_name ht) hclose fun d hd => ⟨?_, rfl⟩
  rw [Pending.absorb?, if_neg (by rw [hrest d hd]; decide)]

/-! ### Numbers -/

namespace LiteralPhase

/-- From its first character on, the automaton comes to a phase along a literal. -/
def Comes (phase : LiteralPhase) (t : Text) : Prop :=
  ∃ c more first, t = c :: more ∧ (∀ rest : Text, start? c (more ++ rest).head? = some first) ∧
    more.foldlM next? first = some phase

theorem Comes.append {longer : LiteralPhase} {u : Text} (h : phase.Comes t) (hu : u.foldlM next? phase = some longer) :
    longer.Comes (t ++ u) := by
  obtain ⟨c, more, first, rfl, hstart, hmore⟩ := h
  refine ⟨c, more ++ u, first, rfl, fun rest => ?_, ?_⟩
  · rw [List.append_assoc]
    exact hstart (u ++ rest)
  · rw [List.foldlM_append, hmore]
    exact hu

theorem next?_digit (hphase : phase = .whole ∨ phase = .fraction ∨ phase = .exponent) (hc : c.isDigit = true) :
    phase.next? c = some phase := by
  rcases hphase with rfl | rfl | rfl <;> simp [next?, hc]

theorem next?_mark {e : Char} (hphase : phase = .whole ∨ phase = .fraction) (he : e = 'e' ∨ e = 'E') :
    phase.next? e = some .exponentMark := by
  rcases hphase with rfl | rfl <;> rcases he with rfl | rfl <;> rfl

theorem next?_digits (hphase : phase = .whole ∨ phase = .fraction ∨ phase = .exponent) (ht : AllDigits t) :
    t.foldlM next? phase = some phase := by
  induction t with
  | nil => rfl
  | cons c t ih =>
    rw [List.foldlM_cons, next?_digit hphase (ht c List.mem_cons_self)]
    exact ih fun d hd => ht d (List.mem_cons_of_mem c hd)

theorem next?_exponent (hphase : phase = .exponentMark ∨ phase = .exponentSign) (ht : AllDigits t) (hne : t ≠ []) :
    t.foldlM next? phase = some .exponent := by
  cases t with
  | nil => exact absurd rfl hne
  | cons c t =>
    have hc : phase.next? c = some .exponent := by
      rcases hphase with rfl | rfl <;> simp [next?, ht c List.mem_cons_self]
    rw [List.foldlM_cons, hc]
    exact next?_digits (.inr (.inr rfl)) fun d hd => ht d (List.mem_cons_of_mem c hd)

theorem comes_whole {w : Text} (hw : AllDigits w) (hne : w ≠ []) : Comes .whole w := by
  cases w with
  | nil => exact absurd rfl hne
  | cons c more =>
    refine ⟨c, more, .whole, rfl, fun _ => ?_, next?_digits (.inl rfl) fun d hd => hw d (List.mem_cons_of_mem c hd)⟩
    rw [start?, if_pos (hw c List.mem_cons_self)]

theorem comes_fraction {w f : Text} (hw : AllDigits w) (hf : AllDigits f) (hne : w ≠ [] ∨ f ≠ []) :
    Comes .fraction (w ++ '.' :: f) := by
  have hdigits : f.foldlM next? .fraction = some .fraction := next?_digits (.inr (.inl rfl)) hf
  by_cases hempty : w = []
  · -- a literal that starts with its point
    subst hempty
    obtain ⟨d, more, rfl⟩ := List.exists_cons_of_ne_nil (hne.resolve_left fun h => h rfl)
    refine ⟨'.', d :: more, .fraction, rfl, fun rest => ?_, hdigits⟩
    have hd : d.isDigit = true := hf d List.mem_cons_self
    simp [start?, hd]
  · exact (comes_whole hw hempty).append hdigits

theorem comes_of_mantissa {m : Text} (hm : Mantissa m) : ∃ phase : LiteralPhase, (phase = .whole ∨ phase = .fraction) ∧
    phase.Comes m := by
  cases hm with
  | whole hw hne => exact ⟨.whole, .inl rfl, comes_whole hw hne⟩
  | point hw hf hne => exact ⟨.fraction, .inr rfl, comes_fraction hw hf hne⟩

/-- **The automaton comes to a phase along the literals of its shape.** -/
theorem Reads.comes (h : phase.Reads t) : phase.Comes t := by
  cases h with
  | whole hw hne => exact comes_whole hw hne
  | fraction hw hf hne => exact comes_fraction hw hf hne
  | exponentMark hm he =>
    obtain ⟨_, hphase, hcomes⟩ := comes_of_mantissa hm
    refine hcomes.append ?_
    rw [List.foldlM_cons, next?_mark hphase he]
    rfl
  | exponentSign hm he hs =>
    obtain ⟨_, hphase, hcomes⟩ := comes_of_mantissa hm
    refine hcomes.append ?_
    rw [List.foldlM_cons, next?_mark hphase he]
    rcases hs with rfl | rfl <;> rfl
  | @exponent m sign ds e hm he hs hds hne =>
    obtain ⟨_, hphase, hcomes⟩ := comes_of_mantissa hm
    refine hcomes.append ?_
    have hsigned : ds.foldlM next? .exponentSign = some .exponent := next?_exponent (.inr rfl) hds hne
    rw [List.foldlM_cons, next?_mark hphase he]
    rcases hs with rfl | rfl | rfl
    · exact next?_exponent (.inl rfl) hds hne
    · exact hsigned
    · exact hsigned

end LiteralPhase

theorem absorbs_number {longer : LiteralPhase} {start : Nat} {read : Text}
    (h : t.foldlM LiteralPhase.next? phase = some longer) :
    t.foldlM Pending.absorb? (.number phase start read) = some (.number longer start (t.reverse ++ read)) := by
  induction t generalizing phase read with
  | nil =>
    cases h
    rfl
  | cons d t ih =>
    obtain ⟨next, hnext, h⟩ := Option.bind_eq_some_iff.1 (List.foldlM_cons.symm.trans h)
    have habsorb : (Pending.number phase start read).absorb? d = some (.number next start (d :: read)) := by
      rw [Pending.absorb?, hnext]
      rfl
    rw [List.foldlM_cons, habsorb]
    refine (ih h).trans ?_
    rw [List.reverse_cons, List.append_assoc]
    rfl

theorem not_isBlank_of_start? {next : Option Char} (h : LiteralPhase.start? c next = some phase) : isBlank c = false := by
  unfold LiteralPhase.start? at h
  split at h
  · rename_i hdigit
    exact not_isBlank_of_mem_literalChars (mem_literalChars_of_isDigit hdigit)
  · split at h
    · rename_i hpoint
      rw [hpoint.1]
      decide
    · cases h

theorem scanFrom_number (h : phase.Reads t) (hcomplete : phase.isComplete = true)
    (hrest : ∀ d, rest.head? = some d → d ∉ literalChars) :
    scanFrom .between position (t ++ rest) =
      (scanFrom .between (position + t.length) rest).prepend [⟨.number, t, position⟩] := by
  obtain ⟨c, more, first, rfl, hstart, hmore⟩ := h.comes
  have hbegin : begin position c (more ++ rest).head? = .ok ([], .number first position [c]) := by
    rw [begin, if_neg (by rw [not_isBlank_of_start? (hstart rest)]; decide), hstart]
  have hclose : (Pending.number phase position (more.reverse ++ [c])).close = .ok [⟨.number, c :: more, position⟩] := by
    rw [Pending.close, if_pos hcomplete, List.reverse_append, List.reverse_reverse]
    rfl
  refine scanFrom_token hbegin (absorbs_number hmore) hclose fun d hd => ?_
  have hnext : phase.next? d = none := by
    by_contra hnext
    obtain ⟨longer, hlonger⟩ := Option.ne_none_iff_exists'.1 hnext
    exact hrest d hd (LiteralPhase.mem_literalChars hlonger)
  refine ⟨by rw [Pending.absorb?, hnext]; rfl, ?_⟩
  rw [Pending.refuses, beq_eq_false_iff_ne]
  rintro rfl
  exact hrest '.' hd (by decide)

/-- **A word is scanned as one token**: a symbol wherever it stands, a number or a name in front of a character that no
word takes in, or of nothing. -/
theorem Word.scanFrom_eq (h : Word kind t)
    (hrest : kind = .number ∨ kind = .identifier → ∀ c, rest.head? = some c → Parts c) :
    scanFrom .between position (t ++ rest) =
      (scanFrom .between (position + t.length) rest).prepend [⟨kind, t, position⟩] := by
  cases h with
  | number hreads hcomplete => exact scanFrom_number hreads hcomplete fun d hd => (hrest (.inl rfl) d hd).1
  | name hc hmore => exact scanFrom_name hc hmore fun d hd => (hrest (.inr rfl) d hd).2
  | symbol hc => exact scanFrom_symbol hc

end Calculator
