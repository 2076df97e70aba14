import Calculator.Function.Builtin
import Calculator.Proofs.Evaluation.Correspondence
import Calculator.Proofs.Expr.Compaction
import Calculator.Proofs.Token.Loosening
/-!
# Layout does not matter

A loosened text has the tokens of the text at moved places, and neither the parser nor the evaluation looks at places.
So the tree is the same, the places apart, the value is the same, and a failure is the same failure, said in the same
words and pointing to the same token (`loosen_transparent`).
-/
namespace Calculator

/-- Two outcomes with the same result, or with failures of one class and kind that say the same, the second one at the
place to which the place of the first one has moved. -/
inductive SameBut {α : Type} (move : Int → Int) (same : α → α → Prop) : Except Failure α → Except Failure α → Prop
  | ok {x y : α} : same x y → SameBut move same (.ok x) (.ok y)
  | error {f g : Failure} : f.category = g.category → f.kind = g.kind → f.message = g.message →
      g.position? = f.position?.map move → SameBut move same (.error f) (.error g)

/-! ## Moved tokens -/

/-- `u` is `t` in the loosened text. -/
def MovedTo (inserted : Nat → Text) (t u : Token) : Prop := u = t.moved inserted

variable {inserted : Nat → Text}

theorem MovedTo.kind_eq {t u : Token} (h : MovedTo inserted t u) : t.kind = u.kind := by
  rw [MovedTo] at h
  rw [h]
  rfl

theorem MovedTo.lexeme_eq {t u : Token} (h : MovedTo inserted t u) : t.lexeme = u.lexeme := by
  rw [MovedTo] at h
  rw [h]
  rfl

theorem MovedTo.place_eq {t u : Token} (h : MovedTo inserted t u) :
    some u.position = (some t.position).map (moved inserted) := by
  rw [MovedTo] at h
  rw [h]
  rfl

theorem readAlike_movedTo : ReadAlike (MovedTo inserted) :=
  ⟨fun h => h.kind_eq, fun h _ => by rw [h.lexeme_eq]⟩

theorem keepsKeys_movedTo : KeepsKeys (MovedTo inserted) := fun h => by rw [h.lexeme_eq]

theorem forall₂_movedTo (ts : List Token) :
    List.Forall₂ (MovedTo inserted) ts (ts.map (Token.moved inserted)) := by
  induction ts with
  | nil => exact .nil
  | cons t ts ih => exact .cons rfl ih

/-! ## Failures at moved tokens -/

theorem SyntaxError.message_congr {fault : SyntaxFault} {position position' : Int} {found found' : Token}
    (h : found.lexeme = found'.lexeme) :
    SyntaxError.message ⟨fault, position, found⟩ = SyntaxError.message ⟨fault, position', found'⟩ := by
  rw [SyntaxError.message, SyntaxError.message, h]

theorem sameBut_parsing {α : Type} {same : α → α → Prop} {e e' : ParseFailure}
    (h : ParseFailure.Corr (MovedTo inserted) e e') :
    SameBut (moved inserted) same (.error (.parsing e)) (.error (.parsing e')) := by
  cases h with
  | @grammar t u found found' fault ht hfound =>
    have hmessage : (Failure.parsing (.grammar ⟨fault, t.position, found⟩)).message =
        (Failure.parsing (.grammar ⟨fault, u.position, found'⟩)).message := SyntaxError.message_congr hfound.lexeme_eq
    exact .error rfl rfl hmessage ht.place_eq
  | unreadable ht =>
    rw [ht.lexeme_eq]
    exact .error rfl rfl rfl rfl

theorem sameBut_evaluation {α : Type} {same : α → α → Prop} {e e' : EvalError}
    (h : EvalError.Corr (MovedTo inserted) e e') :
    SameBut (moved inserted) same (.error (.evaluation e)) (.error (.evaluation e')) := by
  cases h with
  | unknownConstant ht =>
    rw [ht.lexeme_eq]
    exact .error rfl rfl rfl ht.place_eq
  | unknownFunction ht =>
    rw [ht.lexeme_eq]
    exact .error rfl rfl rfl ht.place_eq
  | arityMismatch function arity given ht => exact .error rfl rfl rfl ht.place_eq
  | tooDeep => exact .error rfl rfl rfl rfl

/-! ## The same expression -/

/-- **Layout does not matter.**  Blanks that are put into a text without a fault, in front of it, behind it or anywhere
between its tokens, leave it without a fault, and each of its tokens, the end mark included, has moved by the blanks put
in before it.  The parser finds the same tree, the places apart, or the same fault; and the answer is the same value, or
a failure of the same class and kind with the same message, whose place has moved with the token there. -/
theorem loosen_transparent [Platform] (r : Registry) (code : Text) (inserted : Nat → Text)
    (h : (scan code).failure = none) (hins : Loosens inserted (scan code).tokens) :
    scan (loosen inserted code) = ⟨(scan code).tokens.map (Token.moved inserted), none⟩ ∧
    SameBut (moved inserted) (fun e e' => e.withoutPlaces = e'.withoutPlaces)
      ((parse (scan code)).mapError .parsing) ((parse (scan (loosen inserted code))).mapError .parsing) ∧
    SameBut (moved inserted) (· = ·) (calculate r code) (calculate r (loosen inserted code)) := by
  have hscan := scan_loosen h hins
  have htokens : List.Forall₂ (MovedTo inserted) (scan code).tokens (scan (loosen inserted code)).tokens := by
    rw [hscan]
    exact forall₂_movedTo _
  obtain ⟨front, hfront, -⟩ := tiling_of_scan h
  have hend : ∃ t ∈ (scan code).tokens, t.isEnd = true := by
    refine ⟨.endMark code.length, ?_, rfl⟩
    rw [hfront]
    exact List.mem_append_right _ List.mem_cons_self
  refine ⟨hscan, ?_, ?_⟩
  · have hparse := parse_corr readAlike_movedTo htokens hend
    generalize parse (scan code) = outcome at hparse ⊢
    generalize parse (scan (loosen inserted code)) = outcome' at hparse ⊢
    cases hparse with
    | ok he => exact .ok (he.withoutPlaces_eq MovedTo.lexeme_eq)
    | error he => exact sameBut_parsing he
  · have hanswer := calculateSource_corr (r := r) readAlike_movedTo keepsKeys_movedTo htokens hend
    rw [calculate, calculate]
    generalize calculateSource r (scan code) = outcome at hanswer ⊢
    generalize calculateSource r (scan (loosen inserted code)) = outcome' at hanswer ⊢
    cases hanswer with
    | ok x => exact .ok rfl
    | error hf =>
      cases hf with
      | parsing he => exact sameBut_parsing he
      | evaluation he => exact sameBut_evaluation he

/-- In `2*foo(.5)` the unknown function moves with the blanks before it. -/
theorem loosen_transparent_unknown :
    let code := ['2', '*', 'f', 'o', 'o', '(', '.', '5', ')']
    let inserted : Nat → Text := fun i =>
      if i = 0 then ['\t'] else if i = 1 then [' ', ' '] else if i = 5 then ['\u2003'] else if i = 9 then [' '] else []
    (scan code).failure = none ∧ Loosens inserted (scan code).tokens ∧
    loosen inserted code = ['\t', '2', ' ', ' ', '*', 'f', 'o', 'o', '\u2003', '(', '.', '5', ')', ' '] ∧
    calculate .builtin code = .error (.evaluation (.unknownFunction ['f', 'o', 'o'] (some 2))) ∧
    moved inserted 2 = 5 ∧
    SameBut (moved inserted) (· = ·) (calculate .builtin code) (calculate .builtin (loosen inserted code)) := by
  intro code inserted
  have hfailure : (scan code).failure = none := by decide +kernel
  have hins : Loosens inserted (scan code).tokens := by
    have htokens : (scan code).tokens = [⟨.number, ['2'], 0⟩, ⟨.star, ['*'], 1⟩, ⟨.identifier, ['f', 'o', 'o'], 2⟩,
        ⟨.bracketOpen, ['('], 5⟩, ⟨.number, ['.', '5'], 6⟩, ⟨.bracketClose, [')'], 8⟩, .endMark 9] := by decide +kernel
    refine ⟨fun i c hc => ?_, fun t ht i hlow hhigh => ?_⟩
    · simp only [inserted] at hc
      split_ifs at hc <;> simp only [List.mem_cons, List.not_mem_nil, or_false, or_self] at hc <;> rw [hc] <;> decide
    · rw [htokens] at ht
      have hi : i ≠ 0 ∧ i ≠ 1 ∧ i ≠ 5 ∧ i ≠ 9 := by
        simp only [List.mem_cons, List.not_mem_nil, or_false] at ht
        rcases ht with rfl | rfl | rfl | rfl | rfl | rfl | rfl <;>
          simp only [Token.stop, Token.endMark, List.length_cons, List.length_nil] at hlow hhigh <;> omega
      simp only [inserted, hi.1, hi.2.1, hi.2.2.1, hi.2.2.2, if_false]
  exact ⟨hfailure, hins, rfl, rfl, rfl, (loosen_transparent .builtin code inserted hfailure hins).2.2⟩

end Calculator
