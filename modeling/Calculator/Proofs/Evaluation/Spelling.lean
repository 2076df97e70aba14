import Calculator.Function.Builtin
import Calculator.Proofs.Evaluation.Correspondence
import Calculator.Proofs.Expr.Compaction
import Calculator.Proofs.Expr.Culprit
import Calculator.Proofs.Token.Places
/-!
# The spelling of names does not matter

A name is looked up by its case folding.  Two texts whose tokens are the same but for the spelling of some names are
parsed and evaluated alike, though a folding may be longer than the name, so that hardly a token stands at the same
place in both: the values are the same, and failures are of the same kind and about the token with the same index
(`respelling_transparent`).
-/
namespace Calculator

/-- Two tokens that are the same wherever they stand, or two names that are looked up alike. -/
structure SpelledAlike (t u : Token) : Prop where
  kind_eq : t.kind = u.kind
  key_eq : t.kind = .identifier → caseFold t.lexeme = caseFold u.lexeme
  lexeme_eq : t.kind ≠ .identifier → t.lexeme = u.lexeme

/-- Two answers, to texts with one token for one: the same value, or failures of one class and kind that both point to
the tokens with one index, or both to none because the tree is too deep. -/
inductive SameAnswer (ts us : List Token) : Except Failure Binary64 → Except Failure Binary64 → Prop
  | value (x : Binary64) : SameAnswer ts us (.ok x) (.ok x)
  | failure {f g : Failure} {t u : Token} : f.category = g.category → f.kind = g.kind → SameIndex ts us t u →
      f.position? = some t.position → g.position? = some u.position → SameAnswer ts us (.error f) (.error g)
  | tooDeep : SameAnswer ts us (.error (.evaluation .tooDeep)) (.error (.evaluation .tooDeep))

variable {ts us : List Token} {t u : Token}

/-! ## Tokens with one index -/

/-- Tokens with one index that are spelled alike. -/
def Respelled (ts us : List Token) (t u : Token) : Prop := SameIndex ts us t u ∧ SpelledAlike t u

theorem forall₂_respelled (h : List.Forall₂ SpelledAlike ts us) : List.Forall₂ (Respelled ts us) ts us := by
  obtain ⟨hlength, halike⟩ := List.forall₂_iff_get.1 h
  obtain ⟨-, hindex⟩ := List.forall₂_iff_get.1 (forall₂_sameIndex hlength)
  exact List.forall₂_iff_get.2 ⟨hlength, fun i hi hi' => ⟨hindex i hi hi', halike i hi hi'⟩⟩

theorem readAlike_respelled : ReadAlike (Respelled ts us) where
  kind_eq h := h.2.kind_eq
  number_eq h hnumber := by rw [h.2.lexeme_eq (by rw [hnumber]; decide)]

theorem keepsKeys_respelled : KeepsKeys (Respelled ts us) := by
  intro t u h
  by_cases hname : t.kind = .identifier
  · exact h.2.key_eq hname
  · rw [h.2.lexeme_eq hname]

/-! ## Failures at tokens with one index -/

theorem sameAnswer_parsing {e e' : ParseFailure} (hreadable : ∀ t ∈ ts, t.Readable)
    (h : ParseFailure.Corr (Respelled ts us) e e') :
    SameAnswer ts us (.error (.parsing e)) (.error (.parsing e')) := by
  cases h with
  | grammar fault ht _ => exact .failure rfl rfl ht.1 rfl rfl
  | unreadable ht hnumber hnone =>
    -- the number tokens of a text have numbers
    obtain ⟨⟨i, hi, -⟩, -⟩ := ht
    obtain ⟨x, hx⟩ := hreadable _ (List.mem_of_getElem? hi) hnumber
    rw [hx] at hnone
    cases hnone

theorem sameAnswer_evaluation {e e' : EvalError} (h : EvalError.Corr (Respelled ts us) e e') :
    SameAnswer ts us (.error (.evaluation e)) (.error (.evaluation e')) := by
  cases h with
  | unknownConstant ht => exact .failure rfl rfl ht.1 rfl rfl
  | unknownFunction ht => exact .failure rfl rfl ht.1 rfl rfl
  | arityMismatch _ _ _ ht => exact .failure rfl rfl ht.1 rfl rfl
  | tooDeep => exact .tooDeep

/-! ## Respelled texts -/

/-- **The spelling of names does not matter.**  If the tokens of two texts have the same kinds and the same lexemes, but
that a name may be spelled in any way with the same case folding, then both texts have the same value, or failures of
the same class and kind about the tokens with the same index.  No two tokens of a text stand at the same place, so the
place of a failure says which token it is about. -/
theorem respelling_transparent [Platform] (r : Registry) (code other : Text) (h : (scan code).failure = none)
    (halike : List.Forall₂ SpelledAlike (scan code).tokens (scan other).tokens) :
    SameAnswer (scan code).tokens (scan other).tokens (calculate r code) (calculate r other) ∧
    ((scan code).tokens.Pairwise fun a b => a.position < b.position) ∧
    (scan other).tokens.Pairwise fun a b => a.position < b.position := by
  refine ⟨?_, pairwise_position_scan code, pairwise_position_scan other⟩
  have hanswer := calculateSource_corr (r := r) readAlike_respelled keepsKeys_respelled (forall₂_respelled halike)
    (exists_isEnd_of_scan h)
  rw [calculate, calculate]
  generalize calculateSource r (scan code) = outcome at hanswer ⊢
  generalize calculateSource r (scan other) = outcome' at hanswer ⊢
  cases hanswer with
  | ok x => exact .value x
  | error hf =>
    cases hf with
    | parsing he => exact sameAnswer_parsing (scan_readable code) he
    | evaluation he => exact sameAnswer_evaluation he

/-- In `ﬂoor(π)+ſin` and `FLOOR(Π)+Sin` the unknown constant is token number five, one place apart. -/
theorem respelling_transparent_ligature :
    let code := ['ﬂ', 'o', 'o', 'r', '(', 'π', ')', '+', 'ſ', 'i', 'n']
    let other := ['F', 'L', 'O', 'O', 'R', '(', 'Π', ')', '+', 'S', 'i', 'n']
    (scan code).failure = none ∧ List.Forall₂ SpelledAlike (scan code).tokens (scan other).tokens ∧
    calculate .builtin code = .error (.evaluation (.unknownConstant ['ſ', 'i', 'n'] (some 8))) ∧
    calculate .builtin other = .error (.evaluation (.unknownConstant ['S', 'i', 'n'] (some 9))) ∧
    SameAnswer (scan code).tokens (scan other).tokens (calculate .builtin code) (calculate .builtin other) := by
  intro code other
  have hfailure : (scan code).failure = none := by decide +kernel
  have htokens : (scan code).tokens = [⟨.identifier, ['ﬂ', 'o', 'o', 'r'], 0⟩, ⟨.bracketOpen, ['('], 4⟩,
      ⟨.identifier, ['π'], 5⟩, ⟨.bracketClose, [')'], 6⟩, ⟨.plus, ['+'], 7⟩, ⟨.identifier, ['ſ', 'i', 'n'], 8⟩,
      .endMark 11] := by decide +kernel
  have hothers : (scan other).tokens = [⟨.identifier, ['F', 'L', 'O', 'O', 'R'], 0⟩, ⟨.bracketOpen, ['('], 5⟩,
      ⟨.identifier, ['Π'], 6⟩, ⟨.bracketClose, [')'], 7⟩, ⟨.plus, ['+'], 8⟩, ⟨.identifier, ['S', 'i', 'n'], 9⟩,
      .endMark 12] := by decide +kernel
  have hname : ∀ {s s' : Text} {p p' : Int}, caseFold s = caseFold s' →
      SpelledAlike ⟨.identifier, s, p⟩ ⟨.identifier, s', p'⟩ :=
    fun hkey => ⟨rfl, fun _ => hkey, fun hne => absurd rfl hne⟩
  have hsame : ∀ {kind : TokenKind} {s : Text} {p p' : Int}, SpelledAlike ⟨kind, s, p⟩ ⟨kind, s, p'⟩ :=
    ⟨rfl, fun _ => rfl, fun _ => rfl⟩
  have halike : List.Forall₂ SpelledAlike (scan code).tokens (scan other).tokens := by
    rw [htokens, hothers]
    exact .cons (hname (by decide +kernel)) (.cons hsame (.cons (hname (by decide +kernel)) (.cons hsame (.cons hsame
      (.cons (hname (by decide +kernel)) (.cons hsame .nil))))))
  exact ⟨hfailure, halike, by decide +kernel, by decide +kernel,
    (respelling_transparent .builtin code other hfailure halike).1⟩

end Calculator
