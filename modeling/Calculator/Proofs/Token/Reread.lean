import Calculator.Proofs.Token.Faithful
import Calculator.Proofs.Token.Spacing
/-!
# Reading again what was written

No pass of the writer takes a space away unless a mark stands beside it: a bracket, a comma, `^`, `!` or `√`.  No word
takes a mark in and a mark is a word on its own, so the words that were written are scanned as they were
(`scan_joinTokens`).
-/
namespace Calculator

/-! ## Where spaces may be missing -/

namespace Row

/-- No space is missing but beside a mark, and before the first word. -/
def Parted : Text → Row → Prop
  | _, [] => True
  | before, (gap, w) :: rest => (gap = false → before = [] ∨ IsMark before ∨ IsMark w) ∧ Parted w rest

variable {before : Text} {row : Row}

theorem parted_spaced (ws : List Text) : Parted [] (spaced ws) := by
  have hrest : ∀ (before : Text) (rest : List Text), Parted before (rest.map fun v => (true, v)) := by
    intro before rest
    induction rest generalizing before with
    | nil => trivial
    | cons v rest ih => exact ⟨nofun, ih v⟩
  cases ws with
  | nil => trivial
  | cons w rest => exact ⟨fun _ => .inl rfl, hrest w rest⟩

theorem Parted.close {closes : Text → Text → Bool}
    (hcloses : ∀ before w, closes before w = true → IsMark before ∨ IsMark w) :
    ∀ {before : Text} {row : Row}, Parted before row → Parted before (row.close closes before)
  | _, [], _ => trivial
  | before, (gap, w) :: rest, h => by
    refine ⟨fun hgap => ?_, h.2.close hcloses⟩
    rcases Bool.and_eq_false_iff.1 hgap with hgap | hclosed
    · exact h.1 hgap
    · exact .inr (hcloses before w (by simpa using hclosed))

theorem Parted.closeCarets (h : Parted before row) : Parted before row.closeCarets := by
  have hcaret : IsMark ['^'] := ⟨'^', by decide, rfl⟩
  fun_induction Row.closeCarets row generalizing before with
  | case1 => trivial
  | case2 v rest ih => exact ⟨fun _ => .inr (.inr hcaret), fun _ => .inr (.inl hcaret), ih h.2.2⟩
  | case3 w v rest _ ih => exact ⟨h.1, ih h.2⟩
  | case4 item rest _ ih => exact ⟨h.1, ih h.2⟩

theorem isMark_of_isBehind {mark : Char} (hmark : mark ∈ marks) (before w : Text) (h : isBehind mark before w = true) :
    IsMark before ∨ IsMark w :=
  .inl ⟨mark, hmark, eq_of_beq h⟩

theorem isMark_of_isBefore {mark : Char} (hmark : mark ∈ marks) (before w : Text) (h : isBefore mark before w = true) :
    IsMark before ∨ IsMark w :=
  .inr ⟨mark, hmark, eq_of_beq h⟩

theorem isMark_of_isCall (before w : Text) (h : isCall before w = true) : IsMark before ∨ IsMark w :=
  .inr ⟨'(', by decide, eq_of_beq (Bool.and_eq_true_iff.1 h).2⟩

theorem Parted.tidy (h : Parted [] row) : Parted [] row.tidy := by
  have hopening : '(' ∈ marks := by decide
  have hclosing : ')' ∈ marks := by decide
  have hcomma : ',' ∈ marks := by decide
  have hbang : '!' ∈ marks := by decide
  have hroot : '√' ∈ marks := by decide
  have hbracketed := (h.close (isMark_of_isBehind hopening)).close (isMark_of_isBefore hclosing)
  have hlisted := (hbracketed.close isMark_of_isCall).close (isMark_of_isBefore hcomma)
  exact (hlisted.closeCarets.close (isMark_of_isBefore hbang)).close (isMark_of_isBehind hroot)

end Row

/-! ## Reading it again -/

/-- What a token is, wherever it stands. -/
def Token.spelling (t : Token) : TokenKind × Text := (t.kind, t.lexeme)

/-- In front of a row whose spaces are missing only beside marks, a word that is no mark is not lengthened. -/
theorem parts_of_parted {w : Text} {row : Row} (hparted : Row.Parted w row) (hw : ∀ c ∈ w, c ∉ marks) (hne : w ≠ [])
    (hplain : ∀ v ∈ row.words, v ≠ []) : ∀ c, row.text.head? = some c → Parts c := by
  intro c hc
  match row, hparted with
  | [], _ => cases hc
  | (true, v) :: rest, _ =>
    cases hc
    exact ⟨by decide, by decide +kernel⟩
  | (false, v) :: rest, hparted =>
    rcases hparted.1 rfl with hempty | ⟨d, hd, rfl⟩ | ⟨d, hd, rfl⟩
    · exact absurd hempty hne
    · exact absurd hd (hw d List.mem_cons_self)
    · cases hc
      exact (marks_part _ hd).2

theorem scanFrom_row : ∀ {ts : List Token} {row : Row} {before : Text} (position : Nat),
    row.words = ts.map (·.lexeme) → (∀ t ∈ ts, Word t.kind t.lexeme) → row.Parted before →
    ∃ us last, scanFrom .between position row.text = ⟨us ++ [.endMark last], none⟩ ∧
      us.map Token.spelling = ts.map Token.spelling
  | [], [], _, position, _, _, _ => ⟨[], position, rfl, rfl⟩
  | t :: ts, (gap, w) :: row, before, position, hwords, hts, hparted => by
    obtain ⟨rfl, hrow⟩ : w = t.lexeme ∧ Row.words row = ts.map (·.lexeme) := List.cons.inj hwords
    have hword : Word t.kind t.lexeme := hts t List.mem_cons_self
    have hrest : ∀ u ∈ ts, Word u.kind u.lexeme := fun u hu => hts u (List.mem_cons_of_mem t hu)
    have hplain : ∀ v ∈ Row.words row, v ≠ [] := by
      intro v hv
      rw [hrow] at hv
      obtain ⟨u, hu, rfl⟩ := List.mem_map.1 hv
      exact (hrest u hu).plain.ne_nil
    -- behind the space, if there is one
    have htoken : ∀ position, ∃ us last,
        scanFrom .between position (t.lexeme ++ Row.text row) = ⟨us ++ [.endMark last], none⟩ ∧
          us.map Token.spelling = (t :: ts).map Token.spelling := by
      intro position
      have hparts := fun hkind =>
        parts_of_parted hparted.2 (hword.not_mem_marks hkind) hword.plain.ne_nil hplain
      obtain ⟨us, last, hscan, hspelling⟩ := scanFrom_row (position + t.lexeme.length) hrow hrest hparted.2
      refine ⟨⟨t.kind, t.lexeme, position⟩ :: us, last, ?_, congrArg (t.spelling :: ·) hspelling⟩
      rw [hword.scanFrom_eq hparts, hscan]
      rfl
    cases gap with
    | false => exact htoken position
    | true =>
      rw [Row.text, Row.gapText, if_pos rfl, List.singleton_append, scanFrom_blank (by decide)]
      exact htoken (position + 1)

/-- **What is written of the tokens of a text** has the same tokens. -/
theorem scan_joinTokens {code : Text} (h : (scan code).failure = none) :
    (scan (joinTokens (scan code).tokens)).failure = none ∧
      (scan (joinTokens (scan code).tokens)).tokens.map Token.spelling = (scan code).tokens.map Token.spelling := by
  obtain ⟨front, hscan, htiling⟩ := tiling_of_scan h
  have hwords : ∀ t ∈ front, Word t.kind t.lexeme := by
    intro t ht
    refine scan_words code t ?_ (htiling.mem t ht).1
    rw [hscan]
    exact List.mem_append_left _ ht
  have hlexemes : lexemes (scan code).tokens = front.map (·.lexeme) := by
    rw [hscan]
    exact lexemes_append_endMark _ fun t ht => beq_false_of_ne (htiling.mem t ht).1
  have hplain : ∀ w ∈ lexemes (scan code).tokens, Plain w := by
    intro w hw
    rw [hlexemes] at hw
    obtain ⟨t, ht, rfl⟩ := List.mem_map.1 hw
    exact (hwords t ht).plain
  have hrow : (Row.spaced (lexemes (scan code).tokens)).tidy.words = front.map (·.lexeme) := by
    rw [Row.words_tidy, Row.words_spaced, hlexemes]
  obtain ⟨us, last, hagain, hspelling⟩ := scanFrom_row 0 hrow hwords (Row.parted_spaced _).tidy
  rw [joinTokens_eq hplain, scan, hagain]
  refine ⟨rfl, ?_⟩
  rw [hscan, List.map_append, List.map_append, hspelling]
  rfl

theorem joinTokens_congr {ts us : List Token} (h : ts.map Token.spelling = us.map Token.spelling) :
    joinTokens ts = joinTokens us := by
  have hlexemes : ∀ ts : List Token, (ts.filter (!·.isEnd)).map (·.lexeme) =
      ((ts.map Token.spelling).filter fun s => !(s.1 == .exprEnd)).map Prod.snd := by
    intro ts
    rw [List.filter_map, List.map_map]
    rfl
  simp only [joinTokens, hlexemes, h]

end Calculator
