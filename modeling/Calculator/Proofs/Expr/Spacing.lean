import Calculator.Proofs.Expr.Neighbours
import Calculator.Proofs.Token.Loosening
import Calculator.Proofs.Token.Reread
/-!
# Spaces in an expression

In general a space that the writer leaves depends on more than the two tokens around it: a caret next to another caret
takes only the spaces that are still there, and a number may look like a name before a bracket.  In an expression neither
happens, since no caret stands beside a caret or a bracket that would take its space, and no bracket behind a number.  So
every pass comes down to a rule for two neighbours, and so do all together (`tidy_eq`).
-/
namespace Calculator

/-! ## The rule -/

/-- There is no space between two tokens. -/
def Token.touches (before t : Token) : Bool :=
  before.kind ∈ [.bracketOpen, .caret, .root] || t.kind ∈ [.bracketClose, .comma, .caret, .bang] ||
    (before.kind == .identifier && t.kind == .bracketOpen)

/-- The lexemes of the tokens behind another one: nothing between two that touch, and one space between any others. -/
def neatBehind (before : Token) : List Token → Text
  | [] => []
  | t :: rest => (if before.touches t then [] else [' ']) ++ (t.lexeme ++ neatBehind t rest)

def neatText : List Token → Text
  | [] => []
  | t :: rest => t.lexeme ++ neatBehind t rest

/-! ## Marks by their kind -/

/-- A symbol is the only one of its kind. -/
theorem find?_ofSymbol? : ∀ c ∈ symbols, symbols.find? (TokenKind.ofSymbol? · == TokenKind.ofSymbol? c) = some c :=
  forall_mem_of_all (by decide +kernel)

theorem eq_of_ofSymbol? {c d : Char} {k : TokenKind} (hc : TokenKind.ofSymbol? c = some k)
    (hd : TokenKind.ofSymbol? d = some k) : c = d := by
  have hfind := find?_ofSymbol? c (mem_symbols hc)
  rw [hc, ← hd, find?_ofSymbol? d (mem_symbols hd)] at hfind
  exact (Option.some.inj hfind).symm

namespace Word

variable {kind k : TokenKind} {w : Text} {c : Char}

theorem beq_mark (h : Word kind w) (hc : c ∈ marks) (hk : TokenKind.ofSymbol? c = some k) :
    (w == [c]) = (kind == k) := by
  rw [Bool.eq_iff_iff, beq_iff_eq, beq_iff_eq]
  have hmark : kind = .number ∨ kind = .identifier → w ≠ [c] := by
    rintro hkind rfl
    exact h.not_mem_marks hkind c List.mem_cons_self hc
  cases h with
  | number =>
    exact ⟨fun hw => absurd hw (hmark (.inl rfl)), fun hkind => absurd (hkind ▸ hk) ofSymbol?_ne_number⟩
  | name =>
    exact ⟨fun hw => absurd hw (hmark (.inr rfl)), fun hkind => absurd (hkind ▸ hk) ofSymbol?_ne_identifier⟩
  | @symbol d _ hd =>
    constructor
    · rintro ⟨⟩
      exact Option.some.inj (hd.symm.trans hk)
    · rintro rfl
      rw [eq_of_ofSymbol? hd hk]

/-- A name ends like one, and a symbol does not. -/
theorem endsName_eq (h : Word kind w) (hkind : kind ≠ .number) :
    w.getLast?.any isNameChar = (kind == .identifier) := by
  cases h with
  | number => exact absurd rfl hkind
  | @name c more hfirst hmore =>
    have hall : ∀ d ∈ c :: more, isNameChar d = true := List.forall_mem_cons.2 ⟨isNameChar_of_isLetter hfirst, hmore⟩
    rw [List.getLast?_eq_some_getLast (List.cons_ne_nil c more)]
    exact hall _ (List.getLast_mem _)
  | @symbol d _ hd =>
    have hidentifier : kind ≠ .identifier := by
      rintro rfl
      exact ofSymbol?_ne_identifier hd
    rw [beq_false_of_ne hidentifier]
    exact (symbol_starts_nothing d (mem_symbols hd)).2.2.2

end Word

/-! ## Rows of well placed tokens -/

/-- The tokens `ts` stand behind `before`, all of them words and well placed. -/
structure Standing (before : Token) (ts : List Token) : Prop where
  words : ∀ t ∈ before :: ts, Word t.kind t.lexeme
  placed : WellPlaced (some before.kind) ts

theorem Standing.tail {before t : Token} {rest : List Token} (h : Standing before (t :: rest)) : Standing t rest :=
  ⟨fun u hu => h.words u (List.mem_cons_of_mem before hu), h.placed.2⟩

/-- Two words next to each other in an expression. -/
structure Neighbours (before t : Token) : Prop where
  left : Word before.kind before.lexeme
  right : Word t.kind t.lexeme
  follows : MayFollow (some before.kind) t.kind

theorem Standing.neighbours {before t : Token} {rest : List Token} (h : Standing before (t :: rest)) :
    Neighbours before t :=
  ⟨h.words before List.mem_cons_self, h.words t (List.mem_cons_of_mem before List.mem_cons_self), h.placed.1⟩

namespace Row

/-- The row of the tokens behind another one, with a space wherever `gap` asks for one. -/
def behind (gap : Token → Token → Bool) (before : Token) : List Token → Row
  | [] => []
  | t :: rest => (gap before t, t.lexeme) :: behind gap t rest

theorem behind_congr {gap gap' : Token → Token → Bool} (h : ∀ before t, Neighbours before t → gap before t = gap' before t) :
    ∀ {before : Token} {ts : List Token}, Standing before ts → behind gap before ts = behind gap' before ts
  | _, [], _ => rfl
  | before, t :: rest, hts => by
    rw [behind, behind, h before t hts.neighbours, behind_congr h hts.tail]

theorem spaced_eq (t : Token) (rest : List Token) :
    spaced ((t :: rest).map (·.lexeme)) = (false, t.lexeme) :: behind (fun _ _ => true) t rest := by
  have hrest : ∀ (before : Token) (ts : List Token),
      (ts.map (·.lexeme)).map (fun w => (true, w)) = behind (fun _ _ => true) before ts := by
    intro before ts
    induction ts generalizing before with
    | nil => rfl
    | cons u ts ih => exact congrArg ((true, u.lexeme) :: ·) (ih u)
  exact congrArg ((false, t.lexeme) :: ·) (hrest t rest)

theorem close_behind (closes : Text → Text → Bool) (gap : Token → Token → Bool) : ∀ (before : Token) (ts : List Token),
    close closes before.lexeme (behind gap before ts) =
      behind (fun a b => gap a b && !closes a.lexeme b.lexeme) before ts
  | _, [] => rfl
  | before, t :: rest => congrArg ((gap before t && !closes before.lexeme t.lexeme, t.lexeme) :: ·)
    (close_behind closes gap t rest)

/-! ### Around carets -/

theorem closeCarets_cons_of_ne {w : Text} (hw : w ≠ ['^']) (gap : Bool) (row : Row) :
    closeCarets ((gap, w) :: row) = (gap, w) :: closeCarets row := by
  match gap, row with
  | false, _ => rfl
  | true, [] => rfl
  | true, (false, _) :: _ => rfl
  | true, (true, _) :: _ => rw [closeCarets, if_neg hw]

theorem caret_is_inside {before t : Token} {rest : List Token} (h : Standing before (t :: rest)) (ht : t.kind = .caret) :
    ∃ u more, rest = u :: more ∧ u.kind ≠ .caret := by
  have hplaced : WellPlaced (some .caret) rest := ht ▸ h.placed.2
  cases rest with
  | nil => exact absurd (show TokenKind.endsValue .caret = true from hplaced) (by decide)
  | cons u more =>
    refine ⟨u, more, rfl, fun hu => ?_⟩
    have hfollows : MayFollow (some .caret) u.kind := hplaced.1
    rw [hu] at hfollows
    exact absurd hfollows (by decide)

/-- **The carets of an expression** have spaces on both sides, and all of these are closed. -/
theorem closeCarets_behind {gap : Token → Token → Bool}
    (hgap : ∀ before t, Neighbours before t → before.kind = .caret ∨ t.kind = .caret → gap before t = true) :
    ∀ (before : Token) (ts : List Token), Standing before ts → before.kind ≠ .caret →
      closeCarets (behind gap before ts) =
        behind (fun a b => gap a b && !(a.kind == .caret || b.kind == .caret)) before ts
  | _, [], _, _ => rfl
  | before, t :: rest, h, hbefore => by
    have hbeq : (t.lexeme == ['^']) = (t.kind == .caret) :=
      (h.words t (List.mem_cons_of_mem before List.mem_cons_self)).beq_mark (by decide) rfl
    by_cases ht : t.kind = .caret
    · obtain ⟨u, more, rfl, hu⟩ := caret_is_inside h ht
      have hw : t.lexeme = ['^'] := eq_of_beq (by rw [hbeq, ht]; rfl)
      have hleft : gap before t = true := hgap before t h.neighbours (.inr ht)
      have hright : gap t u = true := hgap t u h.tail.neighbours (.inl ht)
      have ih := closeCarets_behind hgap u more h.tail.tail hu
      simp only [behind, hleft, hright, hw, closeCarets, if_true, ih, ht, beq_self_eq_true, Bool.or_true, Bool.true_or,
        Bool.not_true, Bool.and_false]
    · have hw : t.lexeme ≠ ['^'] := by
        rw [← beq_eq_false_iff_ne, hbeq, beq_eq_false_iff_ne]
        exact ht
      have ih := closeCarets_behind hgap t rest h.tail ht
      simp only [behind, closeCarets_cons_of_ne hw, ih, beq_false_of_ne hbefore, beq_false_of_ne ht, Bool.or_self,
        Bool.not_false, Bool.and_true]

/-! ### All passes -/

theorem isBehind_eq {before t : Token} {c : Char} {k : TokenKind} (h : Neighbours before t) (hc : c ∈ marks)
    (hk : TokenKind.ofSymbol? c = some k) : isBehind c before.lexeme t.lexeme = (before.kind == k) :=
  h.left.beq_mark hc hk

theorem isBefore_eq {before t : Token} {c : Char} {k : TokenKind} (h : Neighbours before t) (hc : c ∈ marks)
    (hk : TokenKind.ofSymbol? c = some k) : isBefore c before.lexeme t.lexeme = (t.kind == k) :=
  h.right.beq_mark hc hk

/-- No number stands before a bracket, so what looks like a call is one. -/
theorem isCall_eq {before t : Token} (h : Neighbours before t) :
    isCall before.lexeme t.lexeme = (before.kind == .identifier && t.kind == .bracketOpen) := by
  rw [isCall, h.right.beq_mark (k := .bracketOpen) (by decide) rfl]
  by_cases ht : t.kind = .bracketOpen
  · have hnumber : before.kind ≠ .number := by
      intro hbefore
      have hfollows := h.follows
      rw [hbefore, ht] at hfollows
      exact absurd hfollows (by decide)
    rw [h.left.endsName_eq hnumber]
  · rw [beq_false_of_ne ht, Bool.and_false, Bool.and_false]

/-- The space between two neighbours is still there before the pass around carets. -/
def listedGap (before t : Token) : Bool :=
  !(before.kind == .bracketOpen || t.kind == .bracketClose || (before.kind == .identifier && t.kind == .bracketOpen) ||
    t.kind == .comma)

theorem listedGap_of_caret (before t : Token) (h : Neighbours before t)
    (hcaret : before.kind = .caret ∨ t.kind = .caret) :
    listedGap before t = true := by
  have hfollows := h.follows
  unfold listedGap
  rcases hcaret with hbefore | ht
  · rw [hbefore] at hfollows ⊢
    cases ht : t.kind <;> rw [ht] at hfollows <;>
      first | rfl | exact absurd hfollows (by decide)
  · rw [ht] at hfollows ⊢
    cases hbefore : before.kind <;> rw [hbefore] at hfollows <;>
      first | rfl | exact absurd hfollows (by decide)

/-- **What the passes make of an expression**: each space goes by the two tokens around it. -/
theorem tidy_eq {t : Token} {rest : List Token} (h : Standing t rest) (ht : t.kind ≠ .caret) :
    (spaced ((t :: rest).map (·.lexeme))).tidy = (false, t.lexeme) :: behind (fun a b => !a.touches b) t rest := by
  have hfirst : ∀ (closes : Text → Text → Bool) (row : Row),
      close closes [] ((false, t.lexeme) :: row) = (false, t.lexeme) :: close closes t.lexeme row := fun _ _ => rfl
  have hlisted : behind (fun a b => (((true && !isBehind '(' a.lexeme b.lexeme) && !isBefore ')' a.lexeme b.lexeme) &&
      !isCall a.lexeme b.lexeme) && !isBefore ',' a.lexeme b.lexeme) t rest = behind listedGap t rest := by
    refine behind_congr (fun a b hab => ?_) h
    rw [isBehind_eq (k := .bracketOpen) hab (by decide) rfl, isBefore_eq (k := .bracketClose) hab (by decide) rfl,
      isCall_eq hab, isBefore_eq (k := .comma) hab (by decide) rfl, listedGap]
    simp only [Bool.true_and, Bool.not_or]
  have hcarets : closeCarets ((false, t.lexeme) :: behind listedGap t rest) =
      (false, t.lexeme) :: behind (fun a b => listedGap a b && !(a.kind == .caret || b.kind == .caret)) t rest :=
    congrArg ((false, t.lexeme) :: ·) (closeCarets_behind listedGap_of_caret t rest h ht)
  have htouches : behind (fun a b => ((listedGap a b && !(a.kind == .caret || b.kind == .caret)) &&
      !isBefore '!' a.lexeme b.lexeme) && !isBehind '√' a.lexeme b.lexeme) t rest =
      behind (fun a b => !a.touches b) t rest := by
    refine behind_congr (fun a b hab => ?_) h
    rw [isBefore_eq (k := .bang) hab (by decide) rfl, isBehind_eq (k := .root) hab (by decide) rfl, listedGap,
      Token.touches]
    cases a.kind <;> cases b.kind <;> rfl
  rw [spaced_eq, tidy]
  simp only [hfirst, close_behind]
  rw [hlisted, hcarets]
  simp only [hfirst, close_behind]
  rw [htouches]

theorem text_behind_touches (before : Token) (ts : List Token) :
    text (behind (fun a b => !a.touches b) before ts) = neatBehind before ts := by
  induction ts generalizing before with
  | nil => rfl
  | cons t rest ih =>
    rw [behind, text, ih, neatBehind, gapText]
    cases before.touches t <;> rfl

end Row

/-! ## Expressions -/

/-- **The spaces of an expression** go by neighbours. -/
theorem joinTokens_eq_neatText {code : Text} {tree : Expr} (h : parse (scan code) = .ok tree) :
    joinTokens (scan code).tokens = neatText (beforeEnd (scan code).tokens) := by
  have hplaced := wellPlaced_of_parse h
  obtain ⟨front, hscan, htiling, -⟩ := accepted_of_parse h
  have hfront : beforeEnd (scan code).tokens = front := by
    rw [hscan]
    exact beforeEnd_append_endMark htiling.isEnd_eq_false
  have hwords : ∀ t ∈ front, Word t.kind t.lexeme := by
    intro t ht
    refine scan_words code t ?_ (htiling.mem t ht).1
    rw [hscan]
    exact List.mem_append_left _ ht
  have hlexemes : lexemes (scan code).tokens = front.map (·.lexeme) := by
    rw [hscan]
    exact lexemes_append_endMark _ htiling.isEnd_eq_false
  have hplain : ∀ w ∈ lexemes (scan code).tokens, Plain w := by
    intro w hw
    rw [hlexemes] at hw
    obtain ⟨t, ht, rfl⟩ := List.mem_map.1 hw
    exact (hwords t ht).plain
  rw [joinTokens_eq hplain, hlexemes, hfront]
  rw [hfront] at hplaced
  cases front with
  | nil => rfl
  | cons t rest =>
    have hfirst : t.kind ≠ .caret := by
      intro ht
      have hfollows : MayFollow none t.kind := hplaced.1
      rw [ht] at hfollows
      exact absurd hfollows (by decide)
    rw [Row.tidy_eq ⟨hwords, hplaced.2⟩ hfirst, Row.text, Row.text_behind_touches]
    rfl

/-- **The spaces of an expression are a matter of neighbours.**  The tokens of a text that the parser accepts are written
in order, with nothing between two of them that touch and one space between any others.  So what is written is the same
for every text with these tokens, and however many blanks are put in between them. -/
theorem spaces_between_neighbours (code : Text) (tree : Expr) (h : parse (scan code) = .ok tree) :
    joinTokens (scan code).tokens = neatText (beforeEnd (scan code).tokens) ∧
    (∀ other : Text, (scan other).tokens.map Token.spelling = (scan code).tokens.map Token.spelling →
      joinTokens (scan other).tokens = neatText (beforeEnd (scan code).tokens)) ∧
    ∀ inserted : Nat → Text, Loosens inserted (scan code).tokens →
      joinTokens (scan (loosen inserted code)).tokens = neatText (beforeEnd (scan code).tokens) := by
  have hneat := joinTokens_eq_neatText h
  refine ⟨hneat, fun other hother => (joinTokens_congr hother).trans hneat, fun inserted hins => ?_⟩
  rw [scan_loosen (failure_of_parse h) hins, ← hneat]
  refine joinTokens_congr ?_
  rw [List.map_map]
  rfl

set_option maxRecDepth 4000 in
/-- In `√ (f(x ,y)^z^ -w !)` all kinds of gaps occur. -/
theorem spaces_between_neighbours_root :
    let code : Text :=
      ['√', ' ', '(', 'f', '(', 'x', ' ', ',', 'y', ')', '^', 'z', '^', ' ', '-', 'w', ' ', '!', ')']
    let written := "√(f(x, y)^z^- w!)".toList
    let tree : Expr := .unary .sqrt (.binary .pow
      (.call ['f'] [.constant ['x'] (some 5), .constant ['y'] (some 8)] (some 3))
      (.binary .pow (.constant ['z'] (some 11)) (.unary .factorial (.unary .neg (.constant ['w'] (some 15))))))
    parse (scan code) = .ok tree ∧ neatText (beforeEnd (scan code).tokens) = written ∧
      joinTokens (scan code).tokens = written ∧ joinTokens (scan written).tokens = written := by
  intro code written tree
  have hparse : parse (scan code) = .ok tree := by rfl
  have hneat : neatText (beforeEnd (scan code).tokens) = written := by decide +kernel
  have hsame : (scan written).tokens.map Token.spelling = (scan code).tokens.map Token.spelling := by decide +kernel
  obtain ⟨hjoin, hother, -⟩ := spaces_between_neighbours code tree hparse
  exact ⟨hparse, hneat, hjoin.trans hneat, (hother _ hsame).trans hneat⟩

end Calculator
