import Calculator.Proofs.Expr.Correspondence
import Calculator.Proofs.Token.Reread
/-!
# Compact texts

The tokens of a text, written again, make a compact text that means the same: it has the same tokens, and so the parser
finds the same tree or the same fault, the places apart (`joinTokens_transparent`).
-/
namespace Calculator

/-! ## Trees without places -/

mutual

/-- A tree in which no name knows where it stands. -/
def Expr.withoutPlaces : Expr → Expr
  | .literal value => .literal value
  | .constant name _ => .constant name none
  | .unary op operand => .unary op operand.withoutPlaces
  | .binary op left right => .binary op left.withoutPlaces right.withoutPlaces
  | .call name arguments _ => .call name (Expr.allWithoutPlaces arguments) none

def Expr.allWithoutPlaces : List Expr → List Expr
  | [] => []
  | e :: rest => e.withoutPlaces :: Expr.allWithoutPlaces rest

end

mutual

theorem Expr.Corr.withoutPlaces_eq {R : Token → Token → Prop} (hR : ∀ {t u : Token}, R t u → t.lexeme = u.lexeme)
    {e e' : Expr} : Expr.Corr R e e' → e.withoutPlaces = e'.withoutPlaces
  | .literal _ => rfl
  | .constant ht => by rw [Expr.withoutPlaces, Expr.withoutPlaces, hR ht]
  | .unary _ he => by rw [Expr.withoutPlaces, Expr.withoutPlaces, he.withoutPlaces_eq hR]
  | .binary _ hleft hright => by
    rw [Expr.withoutPlaces, Expr.withoutPlaces, hleft.withoutPlaces_eq hR, hright.withoutPlaces_eq hR]
  | .call ht hall => by rw [Expr.withoutPlaces, Expr.withoutPlaces, hR ht, hall.withoutPlaces_eq hR]

theorem Expr.CorrAll.withoutPlaces_eq {R : Token → Token → Prop} (hR : ∀ {t u : Token}, R t u → t.lexeme = u.lexeme)
    {es es' : List Expr} : Expr.CorrAll R es es' → Expr.allWithoutPlaces es = Expr.allWithoutPlaces es'
  | .nil => rfl
  | .cons he hrest => by
    rw [Expr.allWithoutPlaces, Expr.allWithoutPlaces, he.withoutPlaces_eq hR, hrest.withoutPlaces_eq hR]

end

/-! ## Rows with the same spellings -/

/-- The tokens with one index in two rows. -/
def SameIndex (ts us : List Token) (t u : Token) : Prop := ∃ i : Nat, ts[i]? = some t ∧ us[i]? = some u

/-- Two readings of rows with one token for one: the same tree, the places apart, or the same fault, noticed at the same
token and pointing to the same token of both rows. -/
inductive SameReading (ts us : List Token) : Except ParseFailure Expr → Except ParseFailure Expr → Prop
  | tree {e e' : Expr} : e.withoutPlaces = e'.withoutPlaces → SameReading ts us (.ok e) (.ok e')
  | fault {t u found found' : Token} (fault : SyntaxFault) : SameIndex ts us t u → SameIndex ts us found found' →
      SameReading ts us (.error (.grammar ⟨fault, t.position, found⟩)) (.error (.grammar ⟨fault, u.position, found'⟩))

theorem forall₂_sameIndex {ts us : List Token} (h : ts.length = us.length) : List.Forall₂ (SameIndex ts us) ts us := by
  refine List.forall₂_iff_get.2 ⟨h, fun i hi hi' => ⟨i, ?_, ?_⟩⟩
  · rw [List.getElem?_eq_getElem hi]
    rfl
  · rw [List.getElem?_eq_getElem hi']
    rfl

theorem SameIndex.spelling_eq {ts us : List Token} (h : ts.map Token.spelling = us.map Token.spelling) {t u : Token}
    (hsame : SameIndex ts us t u) : t.spelling = u.spelling := by
  obtain ⟨i, ht, hu⟩ := hsame
  have hmap := congrArg (·[i]?) h
  simp only [List.getElem?_map, ht, hu, Option.map_some, Option.some.injEq] at hmap
  exact hmap

theorem SameIndex.kind_eq {ts us : List Token} (h : ts.map Token.spelling = us.map Token.spelling) {t u : Token}
    (hsame : SameIndex ts us t u) : t.kind = u.kind :=
  congrArg Prod.fst (hsame.spelling_eq h)

theorem SameIndex.lexeme_eq {ts us : List Token} (h : ts.map Token.spelling = us.map Token.spelling) {t u : Token}
    (hsame : SameIndex ts us t u) : t.lexeme = u.lexeme :=
  congrArg Prod.snd (hsame.spelling_eq h)

theorem sameReading_of_spelling {source source' : Source}
    (h : source.tokens.map Token.spelling = source'.tokens.map Token.spelling)
    (hend : ∃ t ∈ source.tokens, t.isEnd = true) (hreadable : ∀ t ∈ source.tokens, t.Readable) :
    SameReading source.tokens source'.tokens (parse source) (parse source') := by
  have hlength : source.tokens.length = source'.tokens.length := by
    simpa only [List.length_map] using congrArg List.length h
  have halike : ReadAlike (SameIndex source.tokens source'.tokens) :=
    ⟨fun hsame => hsame.kind_eq h, fun hsame _ => by rw [hsame.lexeme_eq h]⟩
  have hparse := parse_corr halike (forall₂_sameIndex hlength) hend
  generalize parse source = outcome at hparse ⊢
  generalize parse source' = outcome' at hparse ⊢
  cases hparse with
  | ok he => exact .tree (he.withoutPlaces_eq fun hsame => hsame.lexeme_eq h)
  | error he =>
    cases he with
    | grammar fault ht hfound => exact .fault fault ht hfound
    | unreadable ht hnumber hnone =>
      obtain ⟨i, ht, -⟩ := ht
      obtain ⟨x, hx⟩ := hreadable _ (List.mem_of_getElem? ht) hnumber
      rw [hx] at hnone
      cases hnone

/-! ## Writing the tokens of a text -/

/-- **Writing the tokens of a text and reading them again loses nothing.**  The compact text has no fault and the same
tokens; the parser reads it the same way, the places apart; and its tokens are written as the compact text again. -/
theorem joinTokens_transparent (code : Text) (h : (scan code).failure = none) :
    (scan (joinTokens (scan code).tokens)).failure = none ∧
    (scan (joinTokens (scan code).tokens)).tokens.map Token.spelling = (scan code).tokens.map Token.spelling ∧
    SameReading (scan code).tokens (scan (joinTokens (scan code).tokens)).tokens
      (parse (scan code)) (parse (scan (joinTokens (scan code).tokens))) ∧
    joinTokens (scan (joinTokens (scan code).tokens)).tokens = joinTokens (scan code).tokens := by
  obtain ⟨hfailure, hspelling⟩ := scan_joinTokens h
  obtain ⟨front, hscan, -⟩ := tiling_of_scan h
  have hend : ∃ t ∈ (scan code).tokens, t.isEnd = true := by
    refine ⟨.endMark code.length, ?_, rfl⟩
    rw [hscan]
    exact List.mem_append_right _ List.mem_cons_self
  exact ⟨hfailure, hspelling, sameReading_of_spelling hspelling.symm hend (scan_readable code),
    joinTokens_congr hspelling⟩

/-- A text that is no expression: the second caret keeps the space behind it. -/
theorem joinTokens_transparent_carets :
    (scan "2. ^ ^ .5e1 ( π".toList).failure = none ∧
    joinTokens (scan "2. ^ ^ .5e1 ( π".toList).tokens = "2.^^ .5e1(π".toList ∧
    (scan "2.^^ .5e1(π".toList).tokens.map Token.spelling = (scan "2. ^ ^ .5e1 ( π".toList).tokens.map Token.spelling ∧
    SameReading (scan "2. ^ ^ .5e1 ( π".toList).tokens (scan "2.^^ .5e1(π".toList).tokens
      (parse (scan "2. ^ ^ .5e1 ( π".toList)) (parse (scan "2.^^ .5e1(π".toList)) := by
  have hfailure : (scan "2. ^ ^ .5e1 ( π".toList).failure = none := by decide +kernel
  have hjoin : joinTokens (scan "2. ^ ^ .5e1 ( π".toList).tokens = "2.^^ .5e1(π".toList := by decide +kernel
  have h := joinTokens_transparent "2. ^ ^ .5e1 ( π".toList hfailure
  rw [hjoin] at h
  exact ⟨hfailure, hjoin, h.2.1, h.2.2.1⟩

end Calculator
