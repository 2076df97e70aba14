import Calculator.Proofs.Decimal.Literals
/-!
# Numbers are scanned greedily

Where a number starts, the scanner takes the longest text that can still become a number literal, and does not go back:
if that text is no literal there is no number, even if a shorter one would be one.  The texts that can become literals
are those along which the automaton comes to a phase (`viable_iff`), and it takes each of their characters.
-/
namespace Calculator

/-- A text that can be extended to a number literal. -/
def Viable (p : Text) : Prop := ∃ more, NumberLiteral (p ++ more)

/-- The longest beginning of a text that can be extended to a number literal. -/
structure Munches (text lexeme : Text) : Prop where
  begins : lexeme <+: text
  viable : Viable lexeme
  longest : ∀ p, p <+: text → Viable p → p.length ≤ lexeme.length

/-- A number starts at a place: with a digit, or with a point before a digit. -/
def NumberStarts (code : Text) (i : Nat) : Prop :=
  ∃ c, code[i]? = some c ∧ (LiteralPhase.start? c code[i + 1]?).isSome = true

variable {phase first longer : LiteralPhase} {t u p more rest : Text} {c : Char} {position : Nat}

/-! ## Runs of the automaton -/

namespace LiteralPhase

theorem start?_eq_some {next : Option Char} (h : start? c next = some first) :
    (c.isDigit = true ∧ first = .whole) ∨ (c = '.' ∧ first = .fraction ∧ ∃ d, next = some d ∧ d.isDigit = true) := by
  unfold start? at h
  split at h
  · rename_i hdigit
    cases h
    exact .inl ⟨hdigit, rfl⟩
  · split at h
    · rename_i hpoint
      cases h
      exact .inr ⟨hpoint.1, rfl, (Option.any_eq_true _ _).1 hpoint.2⟩
    · cases h

/-- The automaton takes what it can of a text. -/
theorem exists_stuck (phase : LiteralPhase) (text : Text) : ∃ more longer rest, text = more ++ rest ∧
    more.foldlM next? phase = some longer ∧ ∀ d, rest.head? = some d → longer.next? d = none := by
  induction text generalizing phase with
  | nil => exact ⟨[], phase, [], rfl, rfl, nofun⟩
  | cons c text ih =>
    cases hnext : phase.next? c with
    | none =>
      refine ⟨[], phase, c :: text, rfl, rfl, fun d hd => ?_⟩
      cases hd
      exact hnext
    | some next =>
      obtain ⟨more, longer, rest, rfl, hmore, hstuck⟩ := ih next
      refine ⟨c :: more, longer, rest, rfl, ?_, hstuck⟩
      rw [List.foldlM_cons, hnext]
      exact hmore

/-- No other run takes more. -/
theorem isPrefix_of_stuck {other : LiteralPhase} (hmore : more.foldlM next? phase = some longer)
    (hstuck : ∀ d, rest.head? = some d → longer.next? d = none) (hp : p.foldlM next? phase = some other)
    (h : p <+: more ++ rest) : p <+: more := by
  induction p generalizing more phase with
  | nil => exact List.nil_prefix
  | cons d p ih =>
    obtain ⟨next, hnext, hp⟩ := Option.bind_eq_some_iff.1 (List.foldlM_cons.symm.trans hp)
    cases more with
    | nil =>
      obtain ⟨behind, hbehind⟩ := h
      cases hmore
      rw [hstuck d (by rw [← List.nil_append rest, ← hbehind]; rfl)] at hnext
      cases hnext
    | cons e more =>
      obtain ⟨rfl, hrest⟩ := List.cons_prefix_cons.1 h
      obtain ⟨next', hnext', hmore⟩ := Option.bind_eq_some_iff.1 (List.foldlM_cons.symm.trans hmore)
      obtain rfl : next = next' := Option.some.inj (hnext.symm.trans hnext')
      exact List.cons_prefix_cons.2 ⟨rfl, ih hmore hp hrest⟩

/-! ## Phases and shapes -/

theorem Reads.append (h : phase.Reads t) (hu : u.foldlM next? phase = some longer) : longer.Reads (t ++ u) := by
  induction u generalizing t phase with
  | nil =>
    cases hu
    rwa [List.append_nil]
  | cons c u ih =>
    obtain ⟨next, hnext, hu⟩ := Option.bind_eq_some_iff.1 (List.foldlM_cons.symm.trans hu)
    rw [List.append_cons]
    exact ih (h.snoc hnext) hu

/-- **The shape of what the automaton has come along.** -/
theorem Comes.reads (h : phase.Comes t) : phase.Reads t := by
  obtain ⟨c, more, first, rfl, hstart, hmore⟩ := h
  rcases start?_eq_some (hstart []) with ⟨hc, rfl⟩ | ⟨rfl, rfl, d, hd, hdigit⟩
  · exact Reads.append (.whole (allDigits_singleton hc) (List.cons_ne_nil _ _)) hmore
  · -- a point on its own has no phase, so its first digit comes with it
    rw [List.append_nil] at hd
    obtain ⟨more, rfl⟩ := List.head?_eq_some_iff.1 hd
    rw [List.foldlM_cons, next?_digit (.inr (.inl rfl)) hdigit] at hmore
    have hpoint : Reads .fraction ([] ++ '.' :: [d]) :=
      .fraction nofun (allDigits_singleton hdigit) (.inr (List.cons_ne_nil _ _))
    exact hpoint.append hmore

theorem Reads.unique (h : phase.Reads t) (h' : longer.Reads t) : phase = longer := by
  obtain ⟨c, more, first, rfl, hstart, hmore⟩ := h.comes
  obtain ⟨c', more', first', heq, hstart', hmore'⟩ := h'.comes
  cases heq
  obtain rfl : first = first' := Option.some.inj ((hstart []).symm.trans (hstart' []))
  exact Option.some.inj (hmore.symm.trans hmore')

theorem Reads.numberLiteral_iff (h : phase.Reads t) : NumberLiteral t ↔ phase.isComplete = true := by
  refine ⟨fun ht => ?_, h.numberLiteral⟩
  obtain ⟨other, hother, hcomplete⟩ := (word_number_iff.2 ht).exists_reads
  rwa [h.unique hother]

/-- A run from the first character on, if it takes the digit that a point needs. -/
theorem comes_of_run (hstart : start? c (more ++ rest).head? = some first) (hmore : more.foldlM next? first = some phase)
    (hne : c = '.' → more ≠ []) : phase.Comes (c :: more) := by
  refine ⟨c, more, first, rfl, fun behind => ?_, hmore⟩
  cases more with
  | cons d more => exact hstart
  | nil =>
    have hc : c ≠ '.' := fun hc => hne hc rfl
    rw [← hstart]
    simp only [start?, hc, false_and, if_false]

theorem Reads.viable (h : phase.Reads t) : Viable t := by
  by_cases hcomplete : phase.isComplete = true
  · exact ⟨[], by rw [List.append_nil]; exact h.numberLiteral hcomplete⟩
  · -- an exponent needs a digit
    have hnext : phase.next? '0' = some .exponent := by
      cases phase <;> first | rfl | exact absurd rfl hcomplete
    exact ⟨['0'], (h.snoc hnext).numberLiteral rfl⟩

end LiteralPhase

/-- **The texts that can become literals.** -/
theorem viable_iff : Viable p ↔ p = [] ∨ p = ['.'] ∨ ∃ phase : LiteralPhase, phase.Reads p := by
  have hzero : AllDigits ['0'] := allDigits_zeros 1
  constructor
  · rintro ⟨behind, hliteral⟩
    obtain ⟨phase, hreads, -⟩ := (word_number_iff.2 hliteral).exists_reads
    obtain ⟨c, more, first, heq, hstart, hmore⟩ := hreads.comes
    cases p with
    | nil => exact .inl rfl
    | cons d p =>
      rw [List.cons_append] at heq
      obtain ⟨rfl, rfl⟩ := List.cons.inj heq
      rw [List.foldlM_append] at hmore
      obtain ⟨middle, hp, -⟩ := Option.bind_eq_some_iff.1 hmore
      by_cases hpoint : d = '.' ∧ p = []
      · obtain ⟨rfl, rfl⟩ := hpoint
        exact .inr (.inl rfl)
      · have hstart := hstart []
        rw [List.append_assoc] at hstart
        exact .inr (.inr ⟨middle, (LiteralPhase.comes_of_run hstart hp fun hd hp => hpoint ⟨hd, hp⟩).reads⟩)
  · rintro (rfl | rfl | ⟨phase, hreads⟩)
    · exact ⟨['0'], (LiteralPhase.Reads.whole hzero (List.cons_ne_nil _ _)).numberLiteral rfl⟩
    · exact ⟨['0'], (LiteralPhase.Reads.fraction (w := []) nofun hzero (.inr (List.cons_ne_nil _ _))).numberLiteral rfl⟩
    · exact hreads.viable

theorem viable_of_start? {next : Option Char} (h : LiteralPhase.start? c next = some first) : Viable [c] := by
  rcases LiteralPhase.start?_eq_some h with ⟨hc, -⟩ | ⟨rfl, -⟩
  · exact (LiteralPhase.Reads.whole (allDigits_singleton hc) (List.cons_ne_nil _ _)).viable
  · exact viable_iff.2 (.inr (.inl rfl))

/-! ## The longest one -/

/-- **What is taken where a number starts** is the longest text that can become a literal. -/
theorem exists_munch (hstart : LiteralPhase.start? c rest.head? = some first) :
    ∃ more longer behind, rest = more ++ behind ∧ more.foldlM LiteralPhase.next? first = some longer ∧
      (∀ d, behind.head? = some d → longer.next? d = none) ∧ longer.Reads (c :: more) ∧
        Munches (c :: rest) (c :: more) := by
  obtain ⟨more, longer, behind, rfl, hmore, hstuck⟩ := LiteralPhase.exists_stuck first rest
  have hne : c = '.' → more ≠ [] := by
    rintro rfl rfl
    -- the digit behind the point is taken
    rcases LiteralPhase.start?_eq_some hstart with ⟨hc, -⟩ | ⟨-, rfl, d, hd, hdigit⟩
    · cases hc
    · cases hmore
      have hnone := hstuck d hd
      rw [LiteralPhase.next?_digit (.inr (.inl rfl)) hdigit] at hnone
      cases hnone
  have hreads := (LiteralPhase.comes_of_run hstart hmore hne).reads
  refine ⟨more, longer, behind, rfl, hmore, hstuck, hreads, ?_, hreads.viable, fun p hp hviable => ?_⟩
  · exact List.cons_prefix_cons.2 ⟨rfl, List.prefix_append more behind⟩
  · rcases viable_iff.1 hviable with rfl | rfl | ⟨phase, hother⟩
    · exact Nat.zero_le _
    · exact Nat.le_add_left 1 more.length
    · obtain ⟨c', tail, first', rfl, hstart', htail⟩ := hother.comes
      obtain ⟨rfl, htailPrefix⟩ := List.cons_prefix_cons.1 hp
      obtain ⟨x, hx⟩ := htailPrefix
      have hfirst := hstart' x
      rw [hx, hstart, Option.some.injEq] at hfirst
      subst hfirst
      have hle := (LiteralPhase.isPrefix_of_stuck hmore hstuck htail ⟨x, hx⟩).length_le
      simpa using hle

/-! ## What the scanner makes of it -/

theorem scanFrom_run (hstart : LiteralPhase.start? c (more ++ rest).head? = some first)
    (hmore : more.foldlM LiteralPhase.next? first = some phase) : scanFrom .between position (c :: (more ++ rest)) =
      scanFrom (.number phase position (c :: more).reverse) (position + (c :: more).length) rest := by
  have hbegin : begin position c (more ++ rest).head? = .ok ([], .number first position [c]) := by
    rw [begin, if_neg (by rw [not_isBlank_of_start? hstart]; decide), hstart]
  rw [scanFrom_begin hbegin, scanFrom_absorbs (absorbs_number hmore), List.reverse_cons, List.length_cons, Nat.add_assoc,
    Nat.add_comm 1]
  rfl

/-- A number that ends where it must not. -/
theorem scanFrom_incomplete (hcomplete : phase.isComplete = false)
    (hstuck : ∀ d, rest.head? = some d → phase.next? d = none) :
    scanFrom (.number phase position t.reverse) (position + t.length) rest =
      ⟨[], some ⟨.invalidNumber t, position⟩⟩ := by
  have hclose : (Pending.number phase position t.reverse).close = .error ⟨.invalidNumber t, position⟩ := by
    rw [Pending.close, if_neg (by rw [hcomplete]; decide), List.reverse_reverse]
  cases rest with
  | nil => rw [scanFrom, hclose]
  | cons d rest =>
    have habsorb : (Pending.number phase position t.reverse).absorb? d = none := by
      rw [Pending.absorb?, hstuck d rfl]
      rfl
    exact scanFrom_broken habsorb hclose

/-- A number that ends where it may, before a point or before something else. -/
theorem scanFrom_complete_number (hcomplete : phase.isComplete = true)
    (hstuck : ∀ d, rest.head? = some d → phase.next? d = none) :
    scanFrom (.number phase position t.reverse) (position + t.length) rest =
      if rest.head? = some '.' then
        ⟨[⟨.number, t, position⟩], some ⟨.unexpectedCharacter '.', (position + t.length : Nat)⟩⟩
      else (scanFrom .between (position + t.length) rest).prepend [⟨.number, t, position⟩] := by
  have hclose : (Pending.number phase position t.reverse).close = .ok [⟨.number, t, position⟩] := by
    rw [Pending.close, if_pos hcomplete, List.reverse_reverse]
  have habsorb : ∀ d, rest.head? = some d → (Pending.number phase position t.reverse).absorb? d = none := by
    intro d hd
    rw [Pending.absorb?, hstuck d hd]
    rfl
  split
  · rename_i hpoint
    obtain ⟨rest, rfl⟩ := List.head?_eq_some_iff.1 hpoint
    exact scanFrom_refused (habsorb '.' rfl) hclose rfl
  · rename_i hpoint
    refine scanFrom_complete hclose fun d hd => ⟨habsorb d hd, ?_⟩
    rw [Pending.refuses, beq_eq_false_iff_ne]
    rintro rfl
    exact hpoint hd

/-! ## Reading what is taken -/

theorem not_numberLiteral_nil : ¬ NumberLiteral [] := by
  intro h
  obtain ⟨phase, hreads, -⟩ := (word_number_iff.2 h).exists_reads
  obtain ⟨c, more, first, heq, -⟩ := hreads.comes
  cases heq

theorem not_numberLiteral_point : ¬ NumberLiteral ['.'] := by
  intro h
  obtain ⟨phase, hreads, -⟩ := (word_number_iff.2 h).exists_reads
  obtain ⟨c, more, first, heq, hstart, -⟩ := hreads.comes
  cases heq
  cases hstart []

/-- **Of the texts that can become literals the literals are those that have a number.** -/
theorem isSome_readNumber?_iff (h : Viable p) : (readNumber? p).isSome = true ↔ NumberLiteral p := by
  rcases viable_iff.1 h with rfl | rfl | ⟨phase, hreads⟩
  · exact iff_of_false (by decide) not_numberLiteral_nil
  · exact iff_of_false (by decide) not_numberLiteral_point
  · rw [hreads.literalText.readNumber?_eq, Option.isSome_map, Decimal.isSome_readUnsigned? hreads,
      hreads.numberLiteral_iff]

/-! ## Numbers in a text -/

/-- The scanner, at a place of a text, takes a lexeme for a number: it is the longest text that can become a literal.
If it is a literal there is a number, no literal at the place is longer, and the scanner goes on behind it unless a point
stands there; otherwise the fault is about this lexeme. -/
structure ScansNumber (code : Text) (i : Nat) (lexeme : Text) : Prop where
  munches : Munches (code.drop i) lexeme
  longest : NumberLiteral lexeme → ∀ p, p <+: code.drop i → NumberLiteral p → p.length ≤ lexeme.length
  number : NumberLiteral lexeme → scanFrom .between i (code.drop i) =
    if code[i + lexeme.length]? = some '.' then
      ⟨[⟨.number, lexeme, i⟩], some ⟨.unexpectedCharacter '.', (i + lexeme.length : Nat)⟩⟩
    else (scanFrom .between (i + lexeme.length) (code.drop (i + lexeme.length))).prepend [⟨.number, lexeme, i⟩]
  invalid : ¬ NumberLiteral lexeme → scanFrom .between i (code.drop i) = ⟨[], some ⟨.invalidNumber lexeme, i⟩⟩

/-- What becomes of a place where a number starts: a source has a number there, or holds that there is none.  Otherwise
the place is inside a token that starts before it, such as a name with digits, or it is a point directly behind a
number, or the source does not get there. -/
inductive NumberMet (code : Text) (source : Source) (i : Nat) : Prop where
  | number {lexeme : Text} (munches : Munches (code.drop i) lexeme) (literal : NumberLiteral lexeme)
      (token : ⟨.number, lexeme, i⟩ ∈ source.tokens)
  | invalid {lexeme : Text} (munches : Munches (code.drop i) lexeme) (literal : ¬ NumberLiteral lexeme)
      (fault : source.failure = some ⟨.invalidNumber lexeme, i⟩)
  | inside {t : Token} (token : t ∈ source.tokens) (position : t.position < i) (stop : i < t.stop)
  | refused {t : Token} (token : t ∈ source.tokens) (kind : t.kind = .number) (stop : t.stop = i)
      (fault : source.failure = some ⟨.unexpectedCharacter '.', i⟩)
  | behind {e : ScanError} (fault : source.failure = some e) (position : e.position < i)

/-- The numbers of what is scanned from a place of a text on.  They start where numbers start in the text, and each is
what the scanner takes there, as is what the source holds for an invalid number.  A point directly behind a number is a
fault at that point.  No place from there on where a number starts is passed over. -/
structure NumbersMunched (code : Text) (place : Nat) (source : Source) : Prop where
  token : ∀ t ∈ source.tokens, t.kind = .number → ∃ i : Nat, t.position = i ∧ NumberStarts code i ∧
    Munches (code.drop i) t.lexeme ∧ NumberLiteral t.lexeme ∧
      (code[i + t.lexeme.length]? = some '.' →
        source.failure = some ⟨.unexpectedCharacter '.', (i + t.lexeme.length : Nat)⟩)
  fault : ∀ lexeme position, source.failure = some ⟨.invalidNumber lexeme, position⟩ → ∃ i : Nat, position = i ∧
    NumberStarts code i ∧ Munches (code.drop i) lexeme ∧ ¬ NumberLiteral lexeme
  met : ∀ i, place ≤ i → NumberStarts code i → NumberMet code source i

variable {code lexeme : Text} {i : Nat} {source : Source}

theorem drop_add_length (h : code.drop i = t ++ rest) : code.drop (i + t.length) = rest := by
  rw [← List.drop_drop, h, List.drop_left]

/-- A name goes as far as the characters of names. -/
theorem exists_scanFrom_name (position : Nat) (hc : isLetter c = true) (rest : Text) : ∃ t behind, rest = t ++ behind ∧
    scanFrom .between position (c :: (t ++ behind)) =
      (scanFrom .between (position + (c :: t).length) behind).prepend [⟨.identifier, c :: t, position⟩] := by
  refine ⟨rest.takeWhile isNameChar, rest.dropWhile isNameChar, List.takeWhile_append_dropWhile.symm, ?_⟩
  refine scanFrom_name hc (fun d hd => List.mem_takeWhile_imp hd) fun d hd => ?_
  have hstop := List.head?_dropWhile_not isNameChar rest
  rwa [hd] at hstop

theorem NumberLiteral.viable (h : NumberLiteral p) : Viable p := ⟨[], by rwa [List.append_nil]⟩

/-- **Where a number starts the scanner takes one**, or finds that there is none. -/
theorem scansNumber_of_starts (h : NumberStarts code i) : ∃ lexeme, ScansNumber code i lexeme := by
  obtain ⟨c, hc, hstart⟩ := h
  obtain ⟨first, hfirst⟩ := Option.isSome_iff_exists.1 hstart
  have hdrop : code.drop i = c :: code.drop (i + 1) := by
    obtain ⟨hi, rfl⟩ := List.getElem?_eq_some_iff.1 hc
    exact List.drop_eq_getElem_cons hi
  rw [← List.head?_drop] at hfirst
  obtain ⟨more, phase, behind, hrest, hmore, hstuck, hreads, hmunches⟩ := exists_munch hfirst
  rw [hrest] at hfirst
  rw [hrest] at hdrop
  have hbehind : code.drop (i + (c :: more).length) = behind := drop_add_length hdrop
  rw [hrest, ← hdrop] at hmunches
  refine ⟨c :: more, hmunches, fun _ p hp hliteral => hmunches.longest p hp hliteral.viable, ?_, ?_⟩
  · intro hliteral
    rw [hdrop, scanFrom_run hfirst hmore,
      scanFrom_complete_number (hreads.numberLiteral_iff.1 hliteral) hstuck, ← List.head?_drop, hbehind]
  · intro hliteral
    have hcomplete : phase.isComplete = false := Bool.eq_false_iff.2 fun h => hliteral (hreads.numberLiteral_iff.2 h)
    rw [hdrop, scanFrom_run hfirst hmore, scanFrom_incomplete hcomplete hstuck]

theorem NumberMet.prepend (h : NumberMet code source i) (ts : List Token) : NumberMet code (source.prepend ts) i := by
  cases h with
  | number hmunches hliteral ht => exact .number hmunches hliteral (List.mem_append_right ts ht)
  | invalid hmunches hliteral hfault => exact .invalid hmunches hliteral hfault
  | inside ht hposition hstop => exact .inside (List.mem_append_right ts ht) hposition hstop
  | refused ht hkind hstop hfault => exact .refused (List.mem_append_right ts ht) hkind hstop hfault
  | behind hfault hposition => exact .behind hfault hposition

/-- A number, where it starts and inside. -/
theorem NumberMet.of_token {j : Nat} (hmunches : Munches (code.drop i) lexeme) (hliteral : NumberLiteral lexeme)
    (ht : ⟨.number, lexeme, i⟩ ∈ source.tokens) (hij : i ≤ j) (hj : j < i + lexeme.length) :
    NumberMet code source j := by
  rcases Nat.lt_or_eq_of_le hij with hlt | rfl
  · exact .inside ht (Int.ofNat_lt.2 hlt) (Int.ofNat_lt.2 hj)
  · exact .number hmunches hliteral ht

namespace NumbersMunched

/-- Tokens that are no numbers, before the numbers of what follows them. -/
theorem prepend {stop : Nat} (h : NumbersMunched code stop source) (ts : List Token)
    (hts : ∀ t ∈ ts, t.kind ≠ .number) (hinside : ∀ j, i ≤ j → j < stop → NumberStarts code j →
      ∃ t ∈ ts, t.position < j ∧ j < t.stop) : NumbersMunched code i (source.prepend ts) where
  token t ht hk := by
    rcases List.mem_append.1 ht with ht | ht
    · exact absurd hk (hts t ht)
    · exact h.token t ht hk
  fault := h.fault
  met j hj hstarts := by
    rcases Nat.lt_or_ge j stop with hlt | hge
    · obtain ⟨t, ht, hposition, hstop⟩ := hinside j hj hlt hstarts
      exact .inside (List.mem_append_left _ ht) hposition hstop
    · exact (h.met j hge hstarts).prepend ts

theorem of_fault (hstarts : ¬ NumberStarts code i) : NumbersMunched code i ⟨[], some ⟨.unexpectedCharacter c, i⟩⟩ where
  token := nofun
  fault := nofun
  met j hj hstarts' := by
    have hne : i ≠ j := by
      rintro rfl
      exact hstarts hstarts'
    exact .behind rfl (Int.ofNat_lt.2 (Nat.lt_of_le_of_ne hj hne))

/-- A number, and the numbers of what follows it. -/
theorem of_scansNumber (hstarts : NumberStarts code i) (h : ScansNumber code i lexeme)
    (hrest : NumbersMunched code (i + lexeme.length)
      (scanFrom .between (i + lexeme.length) (code.drop (i + lexeme.length)))) :
    NumbersMunched code i (scanFrom .between i (code.drop i)) := by
  by_cases hliteral : NumberLiteral lexeme
  · rw [h.number hliteral]
    split
    · refine ⟨fun t ht _ => ?_, nofun, fun j hj _ => ?_⟩
      · obtain rfl := List.mem_singleton.1 ht
        exact ⟨i, rfl, hstarts, h.munches, hliteral, fun _ => rfl⟩
      · rcases Nat.lt_trichotomy j (i + lexeme.length) with hlt | rfl | hgt
        · exact .of_token h.munches hliteral (List.mem_singleton_self _) hj hlt
        · exact .refused (List.mem_singleton_self _) rfl rfl rfl
        · exact .behind rfl (Int.ofNat_lt.2 hgt)
    · rename_i hpoint
      refine ⟨fun t ht hk => ?_, hrest.fault, fun j hj hstarts' => ?_⟩
      · rcases List.mem_cons.1 ht with rfl | ht
        · exact ⟨i, rfl, hstarts, h.munches, hliteral, fun hnext => absurd hnext hpoint⟩
        · exact hrest.token t ht hk
      · rcases Nat.lt_or_ge j (i + lexeme.length) with hlt | hge
        · exact .of_token h.munches hliteral List.mem_cons_self hj hlt
        · exact (hrest.met j hge hstarts').prepend _
  · rw [h.invalid hliteral]
    refine ⟨nofun, fun s position hfault => ?_, fun j hj _ => ?_⟩
    · cases hfault
      exact ⟨i, rfl, hstarts, h.munches, hliteral⟩
    · rcases Nat.lt_or_eq_of_le hj with hj | rfl
      · exact .behind rfl (Int.ofNat_lt.2 hj)
      · exact .invalid h.munches hliteral rfl

end NumbersMunched

/-- The numbers of the rest of a text, by induction on the text that is left. -/
theorem numbersMunched_from (code : Text) (i : Nat) : NumbersMunched code i (scanFrom .between i (code.drop i)) := by
  cases hdrop : code.drop i with
  | nil =>
    rw [scanFrom_nil rfl]
    refine ⟨fun t ht hk => ?_, nofun, fun j hj ⟨c, hc, _⟩ => ?_⟩
    · obtain rfl := List.mem_singleton.1 ht
      cases hk
    · rw [List.getElem?_eq_none (Nat.le_trans (List.drop_eq_nil_iff.1 hdrop) hj)] at hc
      cases hc
  | cons c rest =>
    have hi : i < code.length := by
      by_contra hlength
      rw [List.drop_eq_nil_of_le (Nat.le_of_not_lt hlength)] at hdrop
      cases hdrop
    have hrest : rest = code.drop (i + 1) := (drop_add_length (t := [c]) hdrop).symm
    have hc : code[i]? = some c := by rw [← List.head?_drop, hdrop]; rfl
    have hiff : NumberStarts code i ↔ (LiteralPhase.start? c rest.head?).isSome = true := by
      rw [NumberStarts, hc, hrest, List.head?_drop]
      exact ⟨fun ⟨_, heq, h⟩ => Option.some.inj heq ▸ h, fun h => ⟨c, rfl, h⟩⟩
    cases hstart : LiteralPhase.start? c rest.head? with
    | some first =>
      have hstarts : NumberStarts code i := hiff.2 (by rw [hstart]; rfl)
      obtain ⟨lexeme, h⟩ := scansNumber_of_starts hstarts
      have hne : 0 < lexeme.length := h.munches.longest [c] ⟨rest, hdrop.symm⟩ (viable_of_start? hstart)
      rw [← hdrop]
      exact .of_scansNumber hstarts h (numbersMunched_from code (i + lexeme.length))
    | none =>
      have hnot : ¬ NumberStarts code i := fun h => by
        rw [hiff, hstart] at h
        cases h
      -- no number starts at the one character that is read
      have hpassed : ∀ {ts : List Token} (j : Nat), i ≤ j → j < i + 1 → NumberStarts code j →
          ∃ t ∈ ts, t.position < j ∧ j < t.stop := by
        intro ts j hj hlt hstarts
        obtain rfl : i = j := Nat.le_antisymm hj (Nat.le_of_lt_succ hlt)
        exact absurd hstarts hnot
      by_cases hblank : isBlank c = true
      · rw [scanFrom_blank hblank, hrest]
        exact (numbersMunched_from code (i + 1)).prepend [] nofun hpassed
      cases hletter : isLetter c with
      | true =>
        obtain ⟨t, behind, rfl, hname⟩ := exists_scanFrom_name i hletter rest
        rw [hname, ← drop_add_length (t := c :: t) hdrop]
        refine (numbersMunched_from code _).prepend _ (by simp) fun j hj hlt hstarts => ?_
        have hne : i ≠ j := by
          rintro rfl
          exact hnot hstarts
        exact ⟨_, List.mem_singleton_self _, Int.ofNat_lt.2 (Nat.lt_of_le_of_ne hj hne), Int.ofNat_lt.2 hlt⟩
      | false =>
        cases hsymbol : TokenKind.ofSymbol? c with
        | some kind =>
          rw [scanFrom_symbol hsymbol, hrest]
          refine (numbersMunched_from code (i + 1)).prepend _ (fun t ht hk => ?_) hpassed
          obtain rfl := List.mem_singleton.1 ht
          exact ofSymbol?_ne_number (hsymbol.trans (congrArg some hk))
        | none =>
          have hbegin : begin i c rest.head? = .error ⟨.unexpectedCharacter c, i⟩ := by
            simp only [begin, hblank, hstart, hletter, hsymbol, Bool.false_eq_true, if_false]
          rw [scanFrom_unexpected hbegin]
          exact .of_fault hnot
termination_by code.length - i

/-- **Numbers are scanned greedily.**  Wherever a number starts, the scanner takes the longest text that can become a
number literal: this is a number exactly if it is a literal, and then no literal there is longer.  If it is none, it is
an invalid number, even if a shorter text would be a literal.  All numbers of a text come about like this, no place
where a number starts is passed over, and a point directly behind a number always is a fault.  A text that can become a
literal is one exactly if it has a number. -/
theorem numbers_munched (code : Text) :
    (∀ i, NumberStarts code i → ∃ lexeme, ScansNumber code i lexeme) ∧ NumbersMunched code 0 (scan code) ∧
      ∀ p, Viable p → ((readNumber? p).isSome = true ↔ NumberLiteral p) :=
  ⟨fun _ => scansNumber_of_starts, numbersMunched_from code 0, fun _ => isSome_readNumber?_iff⟩

/-- The second number ends at a point, and the second text starts with a literal that there is no going back to. -/
theorem numbers_munched_two_texts :
    scan "1.5e3*.25.5".toList = ⟨[⟨.number, "1.5e3".toList, 0⟩, ⟨.star, "*".toList, 5⟩, ⟨.number, ".25".toList, 6⟩],
      some ⟨.unexpectedCharacter '.', 9⟩⟩ ∧ Munches ".25.5".toList ".25".toList ∧
    scan "2.5e+x".toList = ⟨[], some ⟨.invalidNumber "2.5e+".toList, 0⟩⟩ ∧ Munches "2.5e+x".toList "2.5e+".toList ∧
      ¬ NumberLiteral "2.5e+".toList := by
  have hscan : scan "1.5e3*.25.5".toList = ⟨[⟨.number, "1.5e3".toList, 0⟩, ⟨.star, "*".toList, 5⟩,
      ⟨.number, ".25".toList, 6⟩], some ⟨.unexpectedCharacter '.', 9⟩⟩ := by decide
  have hscan' : scan "2.5e+x".toList = ⟨[], some ⟨.invalidNumber "2.5e+".toList, 0⟩⟩ := by decide
  obtain ⟨i, hi, -, hmunches, -⟩ := (numbers_munched "1.5e3*.25.5".toList).2.1.token ⟨.number, ".25".toList, 6⟩
    (by rw [hscan]; decide) rfl
  obtain rfl : i = 6 := Int.ofNat.inj hi.symm
  obtain ⟨i', hi', -, hmunches', hliteral⟩ := (numbers_munched "2.5e+x".toList).2.1.fault _ _ (by rw [hscan'])
  obtain rfl : i' = 0 := Int.ofNat.inj hi'.symm
  exact ⟨hscan, hmunches, hscan', hmunches', hliteral⟩

end Calculator
