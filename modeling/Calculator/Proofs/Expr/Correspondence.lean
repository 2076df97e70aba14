import Calculator.Proofs.Expr.Run
import Mathlib.Data.List.Forall2
/-!
# Rows of tokens that the parser reads alike

The parser sees the kind of a token and the number of a number token; it copies names and places into trees and errors
without looking at them.  So if two rows correspond token by token, in any way that keeps kinds and numbers, then the
parser does the same with both: its states correspond (`step_corr`) and so do the two outcomes (`parse_corr`).
-/
namespace Calculator

/-- A correspondence of tokens that keeps all that the parser looks at. -/
structure ReadAlike (R : Token → Token → Prop) : Prop where
  kind_eq : ∀ {t u : Token}, R t u → t.kind = u.kind
  number_eq : ∀ {t u : Token}, R t u → t.kind = .number → readNumber? t.lexeme = readNumber? u.lexeme

section Corresponding

variable (R : Token → Token → Prop)

/-! ## Trees, states and outcomes -/

mutual

/-- Trees of one shape, with the names of corresponding tokens. -/
inductive Expr.Corr : Expr → Expr → Prop
  | literal (x : Binary64) : Expr.Corr (.literal x) (.literal x)
  | constant {t u : Token} : R t u →
      Expr.Corr (.constant t.lexeme (some t.position)) (.constant u.lexeme (some u.position))
  | unary {e e' : Expr} (op : UnaryOp) : Expr.Corr e e' → Expr.Corr (.unary op e) (.unary op e')
  | binary {left left' right right' : Expr} (op : BinaryOp) : Expr.Corr left left' → Expr.Corr right right' →
      Expr.Corr (.binary op left right) (.binary op left' right')
  | call {t u : Token} {arguments arguments' : List Expr} : R t u → Expr.CorrAll arguments arguments' →
      Expr.Corr (.call t.lexeme arguments (some t.position)) (.call u.lexeme arguments' (some u.position))

inductive Expr.CorrAll : List Expr → List Expr → Prop
  | nil : Expr.CorrAll [] []
  | cons {e e' : Expr} {rest rest' : List Expr} : Expr.Corr e e' → Expr.CorrAll rest rest' →
      Expr.CorrAll (e :: rest) (e' :: rest')

end

inductive Level.Corr : Level → Level → Prop
  | group {t u : Token} : R t u → Level.Corr (.group t) (.group u)
  | argument {t u opening opening' : Token} {before before' : List Expr} : R t u → R opening opening' →
      Expr.CorrAll R before before' → Level.Corr (.argument t opening before) (.argument u opening' before')
  | operand (op : UnaryOp) : Level.Corr (.operand op) (.operand op)
  | rightOperand {left left' : Expr} (op : BinaryOp) : Expr.Corr R left left' →
      Level.Corr (.rightOperand op left) (.rightOperand op left')

inductive Focus.Corr : Focus → Focus → Prop
  | nothing : Focus.Corr .nothing .nothing
  | name {t u : Token} : R t u → Focus.Corr (.name t) (.name u)
  | callOpened {t u opening opening' : Token} : R t u → R opening opening' →
      Focus.Corr (.callOpened t opening) (.callOpened u opening')
  | value {e e' : Expr} : Expr.Corr R e e' → Focus.Corr (.value e) (.value e')

structure ParserState.Corr (s s' : ParserState) : Prop where
  levels : List.Forall₂ (Level.Corr R) s.levels s'.levels
  focus : Focus.Corr R s.focus s'.focus

/-- The same fault, noticed at corresponding tokens and pointing to corresponding tokens. -/
inductive ParseFailure.Corr : ParseFailure → ParseFailure → Prop
  | grammar {t u found found' : Token} (fault : SyntaxFault) : R t u → R found found' →
      ParseFailure.Corr (.grammar ⟨fault, t.position, found⟩) (.grammar ⟨fault, u.position, found'⟩)
  | unreadable {t u : Token} : R t u → t.kind = .number → readNumber? t.lexeme = none →
      ParseFailure.Corr (.unreadable t.lexeme) (.unreadable u.lexeme)

inductive Outcome.Corr {α : Type} (Q : α → α → Prop) : Except ParseFailure α → Except ParseFailure α → Prop
  | ok {x y : α} : Q x y → Outcome.Corr Q (.ok x) (.ok y)
  | error {e e' : ParseFailure} : ParseFailure.Corr R e e' → Outcome.Corr Q (.error e) (.error e')

end Corresponding

variable {R : Token → Token → Prop} {t u : Token} {levels levels' : List Level}

theorem Expr.CorrAll.append {xs ys xs' ys' : List Expr} (hx : Expr.CorrAll R xs xs') (hy : Expr.CorrAll R ys ys') :
    Expr.CorrAll R (xs ++ ys) (xs' ++ ys') := by
  induction xs generalizing xs' with
  | nil =>
    cases hx
    exact hy
  | cons e xs ih =>
    cases hx with
    | cons he hrest => exact .cons he (ih hrest)

theorem Expr.CorrAll.reverse {xs xs' : List Expr} (h : Expr.CorrAll R xs xs') :
    Expr.CorrAll R xs.reverse xs'.reverse := by
  induction xs generalizing xs' with
  | nil =>
    cases h
    exact .nil
  | cons e xs ih =>
    cases h with
    | cons he hrest =>
      rw [List.reverse_cons, List.reverse_cons]
      exact (ih hrest).append (.cons he .nil)

theorem atToken_corr {α : Type} {Q : α → α → Prop} (fault : SyntaxFault) (ht : R t u) :
    Outcome.Corr R Q (.error (atToken fault t)) (.error (atToken fault u)) :=
  .error (.grammar fault ht ht)

/-! ## One token -/

theorem leastStrength_corr (h : List.Forall₂ (Level.Corr R) levels levels') :
    leastStrength levels = leastStrength levels' := by
  cases h with
  | nil => rfl
  | cons hlevel _ => cases hlevel <;> rfl

section Steps

variable (hR : ReadAlike R)
include hR

theorem taken?_corr (ht : R t u) (h : List.Forall₂ (Level.Corr R) levels levels') :
    taken? levels t = taken? levels' u := by
  rw [taken?, taken?, hR.kind_eq ht, leastStrength_corr h]

theorem startValue_corr (ht : R t u) (h : List.Forall₂ (Level.Corr R) levels levels') :
    Outcome.Corr R (ParserState.Corr R) (startValue levels t) (startValue levels' u) := by
  have hkind := hR.kind_eq ht
  unfold startValue
  rw [← hkind]
  split
  · rename_i hnumber
    rw [← hR.number_eq ht hnumber]
    cases hx : readNumber? t.lexeme with
    | some x => exact .ok ⟨h, .value (.literal x)⟩
    | none => exact .error (.unreadable ht hnumber hx)
  · exact .ok ⟨h, .name ht⟩
  · exact .ok ⟨.cons (.group ht) h, .nothing⟩
  · cases t.kind.leading? with
    | some op => exact .ok ⟨.cons (.operand op) h, .nothing⟩
    | none => exact atToken_corr .valueExpected ht

omit hR in
theorem applyTrailing_corr {e e' : Expr} (op : Operation) (he : Expr.Corr R e e')
    (h : List.Forall₂ (Level.Corr R) levels levels') :
    ParserState.Corr R (applyTrailing op e levels) (applyTrailing op e' levels') := by
  cases op with
  | unary op => exact ⟨h, .value (.unary op he)⟩
  | binary op => exact ⟨.cons (.rightOperand op he) h, .nothing⟩

theorem stepBehind_corr (ht : R t u) {e e' : Expr} (he : Expr.Corr R e e')
    (h : List.Forall₂ (Level.Corr R) levels levels') :
    Outcome.Corr R (ParserState.Corr R) (stepBehind t e levels) (stepBehind u e' levels') := by
  have hkind := hR.kind_eq ht
  induction h generalizing e e' with
  | nil =>
    rw [stepBehind, stepBehind, taken?_corr hR ht .nil]
    cases taken? [] u with
    | some op => exact .ok (applyTrailing_corr op he .nil)
    | none => exact atToken_corr .trailing ht
  | @cons level level' outer outer' hlevel houter ih =>
    have htaken := taken?_corr hR ht (.cons hlevel houter)
    cases hop : taken? (level' :: outer') u with
    | some op =>
      rw [stepBehind_taken e (htaken.trans hop), stepBehind_taken e' hop]
      exact .ok (applyTrailing_corr op he (.cons hlevel houter))
    | none =>
      rw [hop] at htaken
      cases hlevel with
      | group =>
        rw [stepBehind, stepBehind, hop, htaken]
        simp only [← hkind]
        split
        · exact .ok ⟨houter, .value he⟩
        · exact atToken_corr (.closingExpected false) ht
      | argument hname hopening hbefore =>
        rw [stepBehind, stepBehind, hop, htaken]
        simp only [← hkind]
        split
        · exact .ok ⟨.cons (.argument hname hopening (.cons he hbefore)) houter, .nothing⟩
        · exact .ok ⟨houter, .value (.call hname (Expr.CorrAll.reverse (.cons he hbefore)))⟩
        · exact atToken_corr (.closingExpected true) ht
      | operand op =>
        rw [stepBehind_operand e htaken, stepBehind_operand e' hop]
        exact ih (.unary op he)
      | rightOperand op hleft =>
        rw [stepBehind_rightOperand e htaken, stepBehind_rightOperand e' hop]
        exact ih (.binary op hleft he)

theorem step_corr (ht : R t u) {s s' : ParserState} (h : ParserState.Corr R s s') :
    Outcome.Corr R (ParserState.Corr R) (s.step t) (s'.step u) := by
  obtain ⟨levels, focus⟩ := s
  obtain ⟨levels', focus'⟩ := s'
  obtain ⟨hlevels, hfocus⟩ := h
  have hkind := hR.kind_eq ht
  cases hfocus with
  | nothing => exact startValue_corr hR ht hlevels
  | name hname =>
    simp only [ParserState.step, ← hkind]
    split
    · exact .ok ⟨hlevels, .callOpened hname ht⟩
    · exact stepBehind_corr hR ht (.constant hname) hlevels
  | callOpened hname hopening =>
    simp only [ParserState.step, ← hkind]
    split
    · exact .ok ⟨hlevels, .value (.call hname .nil)⟩
    · exact startValue_corr hR ht (.cons (.argument hname hopening .nil) hlevels)
  | value he => exact stepBehind_corr hR ht he hlevels

/-! ## The end -/

omit hR in
theorem finishBehind_corr (ht : R t u) {e e' : Expr} (he : Expr.Corr R e e')
    (h : List.Forall₂ (Level.Corr R) levels levels') :
    Outcome.Corr R (Expr.Corr R) (finishBehind t e levels) (finishBehind u e' levels') := by
  induction h generalizing e e' with
  | nil => exact .ok he
  | cons hlevel _ ih =>
    cases hlevel with
    | group hopening => exact .error (.grammar .unclosed hopening ht)
    | argument _ hopening _ => exact .error (.grammar .unclosed hopening ht)
    | operand op => exact ih (.unary op he)
    | rightOperand op hleft => exact ih (.binary op hleft he)

omit hR in
theorem finish_corr (ht : R t u) {s s' : ParserState} (h : ParserState.Corr R s s') :
    Outcome.Corr R (Expr.Corr R) (s.finish t) (s'.finish u) := by
  obtain ⟨levels, focus⟩ := s
  obtain ⟨levels', focus'⟩ := s'
  obtain ⟨hlevels, hfocus⟩ := h
  cases hfocus with
  | nothing => exact atToken_corr .unexpectedEnd ht
  | name hname => exact finishBehind_corr ht (.constant hname) hlevels
  | callOpened => exact atToken_corr .unexpectedEnd ht
  | value he => exact finishBehind_corr ht he hlevels

/-! ## Whole rows -/

theorem depthAt_corr (ht : R t u) {s s' : ParserState} (h : ParserState.Corr R s s') : s.depthAt t = s'.depthAt u := by
  obtain ⟨levels, focus⟩ := s
  obtain ⟨levels', focus'⟩ := s'
  obtain ⟨hlevels, hfocus⟩ := h
  have hlength : levels.length = levels'.length := hlevels.length_eq
  cases hfocus <;> simp only [ParserState.depthAt, hR.kind_eq ht, hlength]

theorem checkDepth_corr (ht : R t u) {s s' : ParserState} (limit : Option Nat) (h : ParserState.Corr R s s') :
    Outcome.Corr R (fun _ _ => True) (s.checkDepth limit t) (s'.checkDepth limit u) := by
  rw [ParserState.checkDepth, ParserState.checkDepth, depthAt_corr hR ht h]
  cases limit.filter (· < s'.depthAt u) with
  | some limit => exact atToken_corr (.tooDeep limit) ht
  | none => exact .ok trivial

/-- What follows the first end mark, and the source's own error, are not looked at. -/
theorem run_corr {limit : Option Nat} {failure failure' : Option ScanError} {ts us : List Token}
    (hts : List.Forall₂ R ts us) (hend : ∃ t ∈ ts, t.isEnd = true) {s s' : ParserState} (h : ParserState.Corr R s s')
    (stop stop' : Int) :
    Outcome.Corr R (Expr.Corr R) (s.run limit failure stop ts) (s'.run limit failure' stop' us) := by
  induction hts generalizing s s' stop stop' with
  | nil =>
    obtain ⟨t, ht, -⟩ := hend
    cases ht
  | @cons t u ts us ht hrest ih =>
    have hdepth := checkDepth_corr hR ht limit h
    rw [ParserState.run, ParserState.run]
    generalize s.checkDepth limit t = checked at hdepth ⊢
    generalize s'.checkDepth limit u = checked' at hdepth ⊢
    cases hdepth with
    | error he => exact .error he
    | ok =>
      have hisEnd : t.isEnd = u.isEnd := by rw [Token.isEnd, Token.isEnd, hR.kind_eq ht]
      simp only [← hisEnd]
      cases hcase : t.isEnd with
      | true => exact finish_corr ht h
      | false =>
        have hstep := step_corr hR ht h
        simp only [Bool.false_eq_true, if_false]
        generalize s.step t = next at hstep ⊢
        generalize s'.step u = next' at hstep ⊢
        cases hstep with
        | error he => exact .error he
        | ok hnext =>
          obtain ⟨v, hv, hvend⟩ := hend
          have hmem : v ∈ ts := by
            rcases List.mem_cons.1 hv with rfl | hv
            · rw [hcase] at hvend
              cases hvend
            · exact hv
          exact ih ⟨v, hmem, hvend⟩ hnext t.stop u.stop

/-- **Sources whose tokens correspond are parsed alike.** -/
theorem parse_corr {source source' : Source} (htokens : List.Forall₂ R source.tokens source'.tokens)
    (hend : ∃ t ∈ source.tokens, t.isEnd = true) : Outcome.Corr R (Expr.Corr R) (parse source) (parse source') :=
  run_corr hR htokens hend ⟨.nil, .nothing⟩ 0 0

end Steps
end Calculator
