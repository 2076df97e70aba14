import Calculator.Answer
import Calculator.Proofs.Expr.Correspondence
/-!
# Trees that are evaluated alike

The evaluation sees a name only through the key that it is looked up by, and it copies spellings and places into errors
without looking at them.  So trees of one shape, with the names of tokens that correspond in any way that keeps keys,
have the same value or the same error about corresponding tokens (`evalWithin_corr`).  Together with what the parser
does with rows that it reads alike, this compares whole answers (`calculateSource_corr`).
-/
namespace Calculator

/-- A correspondence of tokens that keeps what a name is looked up by. -/
def KeepsKeys (R : Token → Token → Prop) : Prop := ∀ {t u : Token}, R t u → caseFold t.lexeme = caseFold u.lexeme

section Corresponding

variable (R : Token → Token → Prop)

/-- The same error about the names of corresponding tokens. -/
inductive EvalError.Corr : EvalError → EvalError → Prop
  | unknownConstant {t u : Token} : R t u →
      EvalError.Corr (.unknownConstant t.lexeme (some t.position)) (.unknownConstant u.lexeme (some u.position))
  | unknownFunction {t u : Token} : R t u →
      EvalError.Corr (.unknownFunction t.lexeme (some t.position)) (.unknownFunction u.lexeme (some u.position))
  | arityMismatch {t u : Token} (function : Text) (arity : Arity) (given : Nat) : R t u →
      EvalError.Corr (.arityMismatch t.lexeme (some t.position) function arity given)
        (.arityMismatch u.lexeme (some u.position) function arity given)
  | tooDeep : EvalError.Corr .tooDeep .tooDeep

/-- The same result, or the same error about corresponding tokens. -/
inductive Evaluated.Corr {α : Type} : Except EvalError α → Except EvalError α → Prop
  | ok (x : α) : Evaluated.Corr (.ok x) (.ok x)
  | error {e e' : EvalError} : EvalError.Corr R e e' → Evaluated.Corr (.error e) (.error e')

inductive Failure.Corr : Failure → Failure → Prop
  | parsing {e e' : ParseFailure} : ParseFailure.Corr R e e' → Failure.Corr (.parsing e) (.parsing e')
  | evaluation {e e' : EvalError} : EvalError.Corr R e e' → Failure.Corr (.evaluation e) (.evaluation e')

/-- The same value, or the same failure at corresponding tokens. -/
inductive Answered.Corr : Except Failure Binary64 → Except Failure Binary64 → Prop
  | ok (x : Binary64) : Answered.Corr (.ok x) (.ok x)
  | error {f f' : Failure} : Failure.Corr R f f' → Answered.Corr (.error f) (.error f')

end Corresponding

variable {R : Token → Token → Prop} {r : Registry}

theorem Evaluated.Corr.elim {α : Type} {x x' : Except EvalError α} (h : Evaluated.Corr R x x') :
    (∃ value, x = .ok value ∧ x' = .ok value) ∨
      ∃ e e', x = .error e ∧ x' = .error e' ∧ EvalError.Corr R e e' := by
  cases h with
  | ok value => exact .inl ⟨value, rfl, rfl⟩
  | error he => exact .inr ⟨_, _, rfl, rfl, he⟩

/-! ## Names -/

theorem resolveConstant_corr (hkey : KeepsKeys R) {t u : Token} (h : R t u) :
    Evaluated.Corr R (resolveConstant t.lexeme (some t.position)) (resolveConstant u.lexeme (some u.position)) := by
  have hsame : constant? t.lexeme = constant? u.lexeme := by rw [constant?, constant?, hkey h]
  unfold resolveConstant
  rw [hsame]
  cases constant? u.lexeme with
  | some x => exact .ok x
  | none => exact .error (.unknownConstant h)

theorem resolve_corr (hkey : KeepsKeys R) {t u : Token} (h : R t u) (given : Nat) :
    Evaluated.Corr R (r.resolve t.lexeme (some t.position) given) (r.resolve u.lexeme (some u.position) given) := by
  have hsame : r.find? t.lexeme = r.find? u.lexeme := by rw [Registry.find?, Registry.find?, hkey h]
  unfold Registry.resolve
  rw [hsame]
  cases r.find? u.lexeme with
  | none => exact .error (.unknownFunction h)
  | some f =>
    cases hf : f.arity.accepts given with
    | true =>
      simp only [hf, if_true]
      exact .ok f
    | false =>
      simp only [hf, Bool.false_eq_true, if_false]
      exact .error (.arityMismatch f.name f.arity given h)

/-! ## Trees -/

theorem Expr.CorrAll.length_eq {es es' : List Expr} : Expr.CorrAll R es es' → es.length = es'.length
  | .nil => rfl
  | .cons _ hrest => congrArg (· + 1) hrest.length_eq

mutual

/-- **Trees that correspond are evaluated alike.** -/
theorem evalWithin_corr [Platform] (hkey : KeepsKeys R) {e e' : Expr} : Expr.Corr R e e' → ∀ budget,
    Evaluated.Corr R (evalWithin r budget e) (evalWithin r budget e')
  | .literal x, _ => .ok x
  | .constant ht, _ => resolveConstant_corr hkey ht
  | .unary op he, budget => by
    rw [evalWithin, evalWithin]
    by_cases hbudget : budget = 0
    · rw [if_pos hbudget, if_pos hbudget]
      exact .error .tooDeep
    · rw [if_neg hbudget, if_neg hbudget]
      obtain ⟨x, h, h'⟩ | ⟨_, _, h, h', herror⟩ := (evalWithin_corr hkey he (budget - 1)).elim <;> rw [h, h']
      · exact .ok (op.apply x)
      · exact .error herror
  | .binary op hleft hright, budget => by
    rw [evalWithin, evalWithin]
    by_cases hbudget : budget = 0
    · rw [if_pos hbudget, if_pos hbudget]
      exact .error .tooDeep
    · rw [if_neg hbudget, if_neg hbudget]
      obtain ⟨x, h, h'⟩ | ⟨_, _, h, h', herror⟩ := (evalWithin_corr hkey hleft (budget - 1)).elim <;> rw [h, h']
      · obtain ⟨y, h, h'⟩ | ⟨_, _, h, h', herror⟩ := (evalWithin_corr hkey hright (budget - 1)).elim <;> rw [h, h']
        · exact .ok (op.apply x y)
        · exact .error herror
      · exact .error herror
  | .call ht hall, budget => by
    rw [evalWithin, evalWithin, ← hall.length_eq]
    obtain ⟨f, h, h'⟩ | ⟨_, _, h, h', herror⟩ := (resolve_corr hkey ht _).elim <;> rw [h, h']
    · obtain ⟨values, h, h'⟩ | ⟨_, _, h, h', herror⟩ := (evalAllWithin_corr hkey hall budget).elim <;> rw [h, h']
      · exact .ok (f.body.apply values).toBinary64
      · exact .error herror
    · exact .error herror

theorem evalAllWithin_corr [Platform] (hkey : KeepsKeys R) {es es' : List Expr} : Expr.CorrAll R es es' → ∀ budget,
    Evaluated.Corr R (evalAllWithin r budget es) (evalAllWithin r budget es')
  | .nil, _ => .ok []
  | .cons he hrest, budget => by
    rw [evalAllWithin, evalAllWithin]
    by_cases hbudget : budget < callCost
    · rw [if_pos hbudget, if_pos hbudget]
      exact .error .tooDeep
    · rw [if_neg hbudget, if_neg hbudget]
      obtain ⟨x, h, h'⟩ | ⟨_, _, h, h', herror⟩ := (evalWithin_corr hkey he (budget - callCost)).elim <;> rw [h, h']
      · obtain ⟨values, h, h'⟩ | ⟨_, _, h, h', herror⟩ := (evalAllWithin_corr hkey hrest budget).elim <;> rw [h, h']
        · exact .ok (x :: values)
        · exact .error herror
      · exact .error herror

end

/-! ## Whole answers -/

/-- **Sources whose tokens correspond have the same answer.** -/
theorem calculateSource_corr [Platform] (hR : ReadAlike R) (hkey : KeepsKeys R) {source source' : Source}
    (htokens : List.Forall₂ R source.tokens source'.tokens) (hend : ∃ t ∈ source.tokens, t.isEnd = true) :
    Answered.Corr R (calculateSource r source) (calculateSource r source') := by
  have hparse := parse_corr hR htokens hend
  rw [calculateSource, calculateSource]
  generalize parse source = outcome at hparse ⊢
  generalize parse source' = outcome' at hparse ⊢
  cases hparse with
  | error he => exact .error (.parsing he)
  | @ok tree tree' htree =>
    obtain ⟨x, h, h'⟩ | ⟨_, _, h, h', herror⟩ := (evalWithin_corr (r := r) hkey htree Platform.stackBudget).elim
    · simp only [evaluate, h, h']
      exact .ok x
    · simp only [evaluate, h, h']
      exact .error (.evaluation herror)

end Calculator
