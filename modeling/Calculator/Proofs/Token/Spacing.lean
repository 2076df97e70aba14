import Calculator.Proofs.Token.Words
import Calculator.Token.Spacing
/-!
# Writing tokens

Words that are written in a row have spaces between them or not.  Each pass of the writer looks only at the two words
around a space, but for the pass around carets, where a space that went with one caret does not count for the next.  So
what the seven passes make of a text is what they make of its row (`joinTokens_eq`).
-/
namespace Calculator

/-! ## Rows of words -/

/-- Words, each with whether a space stands before it. -/
abbrev Row := List (Bool × Text)

namespace Row

def gapText (gap : Bool) : Text := if gap then [' '] else []

def text : Row → Text
  | [] => []
  | (gap, w) :: rest => gapText gap ++ (w ++ text rest)

def words (row : Row) : List Text := row.map Prod.snd

/-- Words with one space between them. -/
def spaced : List Text → Row
  | [] => []
  | w :: rest => (false, w) :: rest.map fun v => (true, v)

theorem words_spaced : ∀ ws : List Text, (spaced ws).words = ws
  | [] => rfl
  | w :: rest => by
    have hrest : (rest.map fun v => (true, v)).map Prod.snd = rest := by rw [List.map_map]; exact List.map_id' rest
    rw [spaced, words, List.map_cons, hrest]

theorem text_behind : ∀ (w : Text) (rest : List Text),
    w ++ text (rest.map fun v => (true, v)) = [' '].intercalate (w :: rest)
  | w, [] => by rw [List.map_nil, text, List.append_nil, List.intercalate_singleton]
  | w, v :: rest => by
    rw [List.map_cons, text, text_behind v rest, List.intercalate_cons_cons, List.append_assoc]
    rfl

theorem text_spaced : ∀ ws : List Text, (spaced ws).text = [' '].intercalate ws
  | [] => rfl
  | w :: rest => text_behind w rest

/-! ## Passes

A pass is told which spaces to close by the words before and behind them; before the first word there is none. -/

def close (closes : Text → Text → Bool) (before : Text) : Row → Row
  | [] => []
  | (gap, w) :: rest => (gap && !closes before w, w) :: close closes w rest

/-- The pass around carets: one with spaces on both sides loses both. -/
def closeCarets : Row → Row
  | [] => []
  | (true, w) :: (true, v) :: rest =>
    if w = ['^'] then (false, w) :: (false, v) :: closeCarets rest
    else (true, w) :: closeCarets ((true, v) :: rest)
  | item :: rest => item :: closeCarets rest

def isBehind (mark : Char) (before _ : Text) : Bool := before == [mark]

def isBefore (mark : Char) (_ w : Text) : Bool := w == [mark]

def isCall (before w : Text) : Bool := before.getLast?.any isNameChar && w == ['(']

def tidy (row : Row) : Row :=
  let listed := close (isBefore ',') [] (close isCall [] (close (isBefore ')') [] (close (isBehind '(') [] row)))
  close (isBehind '√') [] (close (isBefore '!') [] (closeCarets listed))

theorem words_close (closes : Text → Text → Bool) : ∀ (before : Text) (row : Row),
    (close closes before row).words = row.words
  | _, [] => rfl
  | _, (_, w) :: rest => congrArg (w :: ·) (words_close closes w rest)

theorem words_closeCarets (row : Row) : (closeCarets row).words = row.words := by
  fun_induction closeCarets row with
  | case1 => rfl
  | case2 v rest ih => exact congrArg (fun ws => ['^'] :: v :: ws) ih
  | case3 w v rest hcaret ih => exact congrArg (w :: ·) ih
  | case4 item rest hcaret ih => exact congrArg (item.2 :: ·) ih

theorem words_tidy (row : Row) : row.tidy.words = row.words := by
  simp only [tidy, words_close, words_closeCarets]

end Row

/-! ## Marks -/

def marks : Text := ['(', ')', ',', '^', '!', '√']

def IsMark (w : Text) : Prop := ∃ c ∈ marks, w = [c]

/-- A word as the passes see it: without blanks, and with no mark in it unless it is one. -/
structure Plain (w : Text) : Prop where
  ne_nil : w ≠ []
  not_blank : ∀ c ∈ w, isBlank c = false
  mark : ∀ c ∈ w, c ∈ marks → w = [c]

/-- Only the mark itself starts with a mark. -/
theorem Plain.head_beq {c mark : Char} {more : Text} (hw : Plain (c :: more)) (hmark : mark ∈ marks) :
    (c == mark) = (c :: more == [mark]) := by
  by_cases hc : c = mark
  · subst hc
    rw [hw.mark c List.mem_cons_self hmark, beq_self_eq_true, beq_self_eq_true]
  · simp [hc]

theorem marks_part : ∀ c ∈ marks, isBlank c = false ∧ c ∉ literalChars ∧ isNameChar c = false :=
  forall_mem_of_all (by decide +kernel)

theorem Word.not_mem_marks {kind : TokenKind} {w : Text} (h : Word kind w) (hkind : kind = .number ∨ kind = .identifier) :
    ∀ c ∈ w, c ∉ marks := by
  intro c hc hmark
  obtain ⟨-, hliteral, hname⟩ := marks_part c hmark
  cases h with
  | number hreads => exact hliteral (hreads.literalText.mem c hc)
  | name hfirst hmore =>
    rcases List.mem_cons.1 hc with rfl | hc
    · rw [isNameChar_of_isLetter hfirst] at hname
      cases hname
    · rw [hmore c hc] at hname
      cases hname
  | symbol hsymbol =>
    rcases hkind with rfl | rfl
    · exact ofSymbol?_ne_number hsymbol
    · exact ofSymbol?_ne_identifier hsymbol

theorem Word.plain {kind : TokenKind} {w : Text} (h : Word kind w) : Plain w := by
  cases h with
  | number hreads hcomplete =>
    obtain ⟨c, rest, rfl, -⟩ := hreads.literalText.head
    refine ⟨List.cons_ne_nil _ _, fun d hd => not_isBlank_of_mem_literalChars (hreads.literalText.mem d hd), ?_⟩
    exact fun d hd hmark => absurd hmark ((Word.number hreads hcomplete).not_mem_marks (.inl rfl) d hd)
  | name hfirst hmore =>
    refine ⟨List.cons_ne_nil _ _, fun d hd => ?_, ?_⟩
    · rcases List.mem_cons.1 hd with rfl | hd
      · exact not_isBlank_of_isNameChar (isNameChar_of_isLetter hfirst)
      · exact not_isBlank_of_isNameChar (hmore d hd)
    · exact fun d hd hmark => absurd hmark ((Word.name hfirst hmore).not_mem_marks (.inr rfl) d hd)
  | symbol hsymbol =>
    refine ⟨List.cons_ne_nil _ _, fun d hd => ?_, fun d hd _ => by rw [List.mem_singleton.1 hd]⟩
    rw [List.mem_singleton.1 hd]
    exact (symbol_starts_nothing _ (mem_symbols hsymbol)).1

/-! ## Passes over the text of a row -/

section Passes

variable {mark c : Char} {w : Text} (rest : Text)

/-! ### One character that is not blank -/

theorem closeBehind_cons (hc : isBlank c = false) (closing : Bool) :
    closeBehind mark closing (c :: rest) = c :: closeBehind mark (c == mark) rest := by
  simp [closeBehind, hc]

theorem closeBefore_cons (hc : isBlank c = false) (held : Text) :
    closeBefore mark held (c :: rest) = (if c == mark then [] else held) ++ c :: closeBefore mark [] rest := by
  by_cases hmark : c = mark
  · subst hmark
    simp [closeBefore, hc]
  · simp [closeBefore, hc, hmark]

theorem closeCalls_cons (hc : isBlank c = false) (named : Bool) (held : Text) : closeCalls named held (c :: rest) =
    (if named && c == '(' then [] else held) ++ c :: closeCalls (isNameChar c) [] rest := by
  have hbracket : isNameChar '(' = false := (marks_part '(' (by decide)).2.2
  by_cases hopening : c = '('
  · subst hopening
    cases named <;> simp [closeCalls, hc, hbracket]
  · simp [closeCalls, hc, hopening]

/-- A character keeps the blanks before it, unless it is a caret with blanks on both sides. -/
theorem closeCarets_cons (hc : isBlank c = false) (closing : Bool) {held : Text}
    (hkept : c = '^' → held ≠ [] → rest.head?.any isBlank = false) :
    closeCarets closing held (c :: rest) = held ++ c :: closeCarets false [] rest := by
  have hcaret : ¬ (c = '^' ∧ held ≠ [] ∧ rest.head?.any isBlank = true) := by
    rintro ⟨hcaret, hheld, hblank⟩
    rw [hkept hcaret hheld] at hblank
    cases hblank
  rw [closeCarets, if_neg (by rw [hc]; decide), if_neg hcaret]

/-! ### Behind a mark -/

theorem closeBehind_append (hblank : ∀ c ∈ w, isBlank c = false) (hmark : mark ∉ w) (hne : w ≠ []) (closing : Bool) :
    closeBehind mark closing (w ++ rest) = w ++ closeBehind mark false rest := by
  induction w generalizing closing with
  | nil => exact absurd rfl hne
  | cons c w ih =>
    obtain ⟨hc, hw⟩ := List.forall_mem_cons.1 hblank
    obtain ⟨hother, hmark⟩ := not_or.1 (hmark ∘ List.mem_cons.2)
    rw [List.cons_append, closeBehind_cons _ hc, beq_false_of_ne (Ne.symm hother)]
    by_cases hempty : w = []
    · rw [hempty]
      rfl
    · rw [ih hw hmark hempty, List.cons_append]

theorem closeBehind_word (hw : Plain w) (hmark : mark ∈ marks) (closing : Bool) :
    closeBehind mark closing (w ++ rest) = w ++ closeBehind mark (w == [mark]) rest := by
  by_cases hmem : mark ∈ w
  · rw [hw.mark mark hmem hmark, List.singleton_append, closeBehind_cons _ (hw.not_blank mark hmem), beq_self_eq_true,
      beq_self_eq_true]
    rfl
  · have hne : (w == [mark]) = false := by
      rw [beq_eq_false_iff_ne]
      rintro rfl
      exact hmem List.mem_cons_self
    rw [closeBehind_append rest hw.not_blank hmem hw.ne_nil, hne]

theorem closeBehind_text (hmark : mark ∈ marks) : ∀ (before : Text) (row : Row), (∀ w ∈ row.words, Plain w) →
    closeBehind mark (before == [mark]) row.text = (row.close (Row.isBehind mark) before).text
  | _, [], _ => rfl
  | before, (gap, w) :: row, h => by
    have hw : Plain w := h w List.mem_cons_self
    have ih := closeBehind_text hmark w row fun v hv => h v (List.mem_cons_of_mem w hv)
    have hword : ∀ closing, closeBehind mark closing (w ++ Row.text row) =
        w ++ Row.text (Row.close (Row.isBehind mark) w row) := by
      intro closing
      rw [closeBehind_word _ hw hmark, ih]
    have hspace : (' ' == mark) = false := by
      rw [beq_eq_false_iff_ne]
      rintro rfl
      exact absurd hmark (by decide)
    cases gap with
    | false => exact hword _
    | true =>
      rw [Row.text, Row.close, Row.text, Row.isBehind, Row.gapText, if_pos rfl, List.singleton_append, closeBehind]
      cases before == [mark] with
      | true => exact hword true
      | false => exact congrArg (' ' :: ·) ((congrArg (closeBehind mark · _) hspace).trans (hword false))

/-! ### Before a mark -/

theorem closeBefore_append (hblank : ∀ c ∈ w, isBlank c = false) :
    closeBefore mark [] (w ++ rest) = w ++ closeBefore mark [] rest := by
  induction w with
  | nil => rfl
  | cons c w ih =>
    obtain ⟨hc, hw⟩ := List.forall_mem_cons.1 hblank
    rw [List.cons_append, closeBefore_cons _ hc, ih hw, ite_self]
    rfl

theorem closeBefore_word (hw : Plain w) (hmark : mark ∈ marks) (held : Text) :
    closeBefore mark held (w ++ rest) = (if w == [mark] then [] else held) ++ (w ++ closeBefore mark [] rest) := by
  obtain ⟨c, more, rfl⟩ := List.exists_cons_of_ne_nil hw.ne_nil
  obtain ⟨hc, hmore⟩ := List.forall_mem_cons.1 hw.not_blank
  rw [List.cons_append, closeBefore_cons _ hc, closeBefore_append rest hmore, hw.head_beq hmark]
  rfl

theorem closeBefore_text (hmark : mark ∈ marks) : ∀ (before : Text) (row : Row), (∀ w ∈ row.words, Plain w) →
    closeBefore mark [] row.text = (row.close (Row.isBefore mark) before).text
  | _, [], _ => rfl
  | before, (gap, w) :: row, h => by
    have hw : Plain w := h w List.mem_cons_self
    have ih := closeBefore_text hmark w row fun v hv => h v (List.mem_cons_of_mem w hv)
    have hword := fun held => closeBefore_word (Row.text row) hw hmark held
    rw [Row.close, Row.text, Row.text, Row.isBefore, ← ih]
    cases gap with
    | false => exact (hword []).trans (by rw [ite_self]; rfl)
    | true =>
      rw [Row.gapText, if_pos rfl, List.singleton_append, closeBefore, if_pos (by decide)]
      refine (hword [' ']).trans ?_
      cases w == [mark] <;> rfl

/-! ### Between a name and a bracket -/

theorem getLast?_elim_cons (c : Char) (w : Text) (named : Bool) :
    (c :: w).getLast?.elim named isNameChar = w.getLast?.elim (isNameChar c) isNameChar := by
  rw [List.getLast?_cons]
  cases w.getLast? <;> rfl

theorem closeCalls_append (hblank : ∀ c ∈ w, isBlank c = false) (named : Bool) :
    closeCalls named [] (w ++ rest) = w ++ closeCalls (w.getLast?.elim named isNameChar) [] rest := by
  induction w generalizing named with
  | nil => rfl
  | cons c w ih =>
    obtain ⟨hc, hw⟩ := List.forall_mem_cons.1 hblank
    rw [List.cons_append, closeCalls_cons _ hc, ih hw, ite_self, getLast?_elim_cons]
    rfl

theorem closeCalls_word (hw : Plain w) (named : Bool) (held : Text) :
    closeCalls named held (w ++ rest) =
      (if named && w == ['('] then [] else held) ++ (w ++ closeCalls (w.getLast?.any isNameChar) [] rest) := by
  obtain ⟨c, more, rfl⟩ := List.exists_cons_of_ne_nil hw.ne_nil
  obtain ⟨hc, hmore⟩ := List.forall_mem_cons.1 hw.not_blank
  have hlast : (c :: more).getLast?.any isNameChar = more.getLast?.elim (isNameChar c) isNameChar := by
    rw [← getLast?_elim_cons c more false, List.getLast?_cons]
    rfl
  rw [List.cons_append, closeCalls_cons _ hc, closeCalls_append rest hmore, hw.head_beq (by decide), hlast]
  rfl

theorem closeCalls_text : ∀ (before : Text) (row : Row), (∀ w ∈ row.words, Plain w) →
    closeCalls (before.getLast?.any isNameChar) [] row.text = (row.close Row.isCall before).text
  | _, [], _ => rfl
  | before, (gap, w) :: row, h => by
    have hw : Plain w := h w List.mem_cons_self
    have ih := closeCalls_text w row fun v hv => h v (List.mem_cons_of_mem w hv)
    have hword := fun held => closeCalls_word (Row.text row) hw (before.getLast?.any isNameChar) held
    rw [Row.close, Row.text, Row.text, Row.isCall, ← ih]
    cases gap with
    | false => exact (hword []).trans (by rw [ite_self]; rfl)
    | true =>
      rw [Row.gapText, if_pos rfl, List.singleton_append, closeCalls, if_pos (by decide)]
      refine (hword [' ']).trans ?_
      cases before.getLast?.any isNameChar && w == ['('] <;> rfl

/-! ### Around carets -/

theorem closeCarets_append (hblank : ∀ c ∈ w, isBlank c = false) (hne : w ≠ []) (closing : Bool) :
    closeCarets closing [] (w ++ rest) = w ++ closeCarets false [] rest := by
  induction w generalizing closing with
  | nil => exact absurd rfl hne
  | cons c w ih =>
    obtain ⟨hc, hw⟩ := List.forall_mem_cons.1 hblank
    rw [List.cons_append, closeCarets_cons _ hc closing fun _ h => absurd rfl h]
    by_cases hempty : w = []
    · rw [hempty]
      rfl
    · rw [ih hw hempty]
      rfl

/-- A space stays if no caret with a space behind it follows. -/
theorem closeCarets_kept (hw : Plain w) (hkept : w = ['^'] → rest.head?.any isBlank = false) :
    closeCarets false [' '] (w ++ rest) = ' ' :: (w ++ closeCarets false [] rest) := by
  obtain ⟨c, more, rfl⟩ := List.exists_cons_of_ne_nil hw.ne_nil
  obtain ⟨hc, -⟩ := List.forall_mem_cons.1 hw.not_blank
  have hcaret : c = '^' → [' '] ≠ [] → (more ++ rest).head?.any isBlank = false := by
    rintro rfl -
    have heq := hw.mark '^' List.mem_cons_self (by decide)
    rw [(List.cons.inj heq).2, List.nil_append, hkept heq]
  have hplain := closeCarets_append rest hw.not_blank hw.ne_nil false
  rw [List.cons_append, closeCarets_cons _ hc false fun _ h => absurd rfl h] at hplain
  rw [List.cons_append, closeCarets_cons _ hc false hcaret]
  exact congrArg (' ' :: ·) hplain

theorem closeCarets_text (row : Row) (h : ∀ w ∈ row.words, Plain w) :
    closeCarets false [] row.text = row.closeCarets.text := by
  fun_induction Row.closeCarets row with
  | case1 => rfl
  | case2 v rest ih =>
    have hv : Plain v := h v (by simp [Row.words])
    have hrest := ih fun u hu => h u (List.mem_cons_of_mem _ (List.mem_cons_of_mem _ hu))
    simp only [Row.text, Row.gapText, if_true, Bool.false_eq_true, if_false, List.nil_append, List.singleton_append]
    have hdropped := closeCarets_append (Row.text rest) hv.not_blank hv.ne_nil true
    rw [← hrest, ← hdropped]
    simp [closeCarets, show isBlank ' ' = true by decide, show isBlank '^' = false by decide]
  | case3 w v rest hcaret ih =>
    have hw : Plain w := h w List.mem_cons_self
    have hrest := ih fun u hu => h u (List.mem_cons_of_mem _ hu)
    have hkept := closeCarets_kept (Row.text ((true, v) :: rest)) hw fun hw => absurd hw hcaret
    rw [hrest] at hkept
    exact hkept
  | case4 item rest hcaret ih =>
    obtain ⟨gap, w⟩ := item
    have hw : Plain w := h w List.mem_cons_self
    have hrest := ih fun u hu => h u (List.mem_cons_of_mem _ hu)
    cases gap with
    | false =>
      have hword := closeCarets_append (Row.text rest) hw.not_blank hw.ne_nil false
      rw [hrest] at hword
      exact hword
    | true =>
      have hstart : (Row.text rest).head?.any isBlank = false := by
        cases rest with
        | nil => rfl
        | cons next rest =>
          obtain ⟨gap, v⟩ := next
          cases gap with
          | true => exact absurd rfl (hcaret w v rest rfl)
          | false =>
            have hv : Plain v := h v (by simp [Row.words])
            obtain ⟨c, more, rfl⟩ := List.exists_cons_of_ne_nil hv.ne_nil
            exact hv.not_blank c List.mem_cons_self
      have hword := closeCarets_kept (Row.text rest) hw fun _ => hstart
      rw [hrest] at hword
      exact hword

end Passes

/-! ## What is written -/

/-- The texts of some tokens, without end marks. -/
def lexemes (ts : List Token) : List Text := (ts.filter (!·.isEnd)).map (·.lexeme)

theorem lexemes_append_endMark {front : List Token} (p : Int) (hfront : ∀ t ∈ front, t.isEnd = false) :
    lexemes (front ++ [.endMark p]) = front.map (·.lexeme) := by
  have hkept : front.filter (!·.isEnd) = front := List.filter_eq_self.2 fun t ht => by simp [hfront t ht]
  rw [lexemes, List.filter_append, hkept]
  exact congrArg _ (List.append_nil front)

/-- **Tokens are written as their row**, tidied. -/
theorem joinTokens_eq {ts : List Token} (h : ∀ w ∈ lexemes ts, Plain w) :
    joinTokens ts = (Row.spaced (lexemes ts)).tidy.text := by
  have hplain : ∀ row : Row, row.words = lexemes ts → ∀ w ∈ row.words, Plain w := by
    intro row hrow
    rw [hrow]
    exact h
  have hbehind : ∀ (mark : Char) (row : Row), mark ∈ marks → row.words = lexemes ts →
      closeBehind mark false row.text = (row.close (Row.isBehind mark) []).text :=
    fun mark row hmark hrow => closeBehind_text hmark [] row (hplain row hrow)
  have hbefore : ∀ (mark : Char) (row : Row), mark ∈ marks → row.words = lexemes ts →
      closeBefore mark [] row.text = (row.close (Row.isBefore mark) []).text :=
    fun mark row hmark hrow => closeBefore_text hmark [] row (hplain row hrow)
  have hcalls : ∀ row : Row, row.words = lexemes ts → closeCalls false [] row.text = (row.close Row.isCall []).text :=
    fun row hrow => closeCalls_text [] row (hplain row hrow)
  have hcarets : ∀ row : Row, row.words = lexemes ts → closeCarets false [] row.text = row.closeCarets.text :=
    fun row hrow => closeCarets_text row (hplain row hrow)
  have hspaced := Row.words_spaced (lexemes ts)
  have hjoin : joinTokens ts =
      closeBehind '√' false (closeBefore '!' [] (closeCarets false [] (closeBefore ',' [] (closeCalls false []
        (closeBefore ')' [] (closeBehind '(' false (Row.spaced (lexemes ts)).text)))))) := by
    rw [Row.text_spaced]
    rfl
  rw [hjoin, hbehind '(' _ (by decide) hspaced, hbefore ')' _ (by decide), hcalls, hbefore ',' _ (by decide), hcarets,
    hbefore '!' _ (by decide), hbehind '√' _ (by decide)]
  · rfl
  all_goals simp only [Row.words_close, Row.words_closeCarets, hspaced]

end Calculator
