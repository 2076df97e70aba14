import Calculator.Proofs.Evaluation.Walk
/-!
# The calls that an evaluation completes

An evaluation logs a call when the value of the call is there.  `narrate` is the evaluation within a budget which says,
besides its answer, what it has logged on the way.

Which calls these are can be read off the tree.  A way around the tree reaches every node before its operands and
passes it behind them, and an evaluation follows this way up to the first node whose name is wrong; the calls that it
has left by then are the ones it has completed (`completedCalls`).
-/
namespace Calculator

/-! ## Evaluating and logging -/

/-- A part of an evaluation: the calls that it has logged, in order, and its answer. -/
structure Narrated (α : Type) where
  calls : List CallRecord
  answer : Except EvalError α

namespace Narrated

variable {α β : Type}

/-- A part that logs nothing. -/
def silent (answer : Except EvalError α) : Narrated α := ⟨[], answer⟩

/-- A part, and with its value the next one. -/
def andThen (first : Narrated α) (next : α → Narrated β) : Narrated β :=
  match first.answer with
  | .error e => ⟨first.calls, .error e⟩
  | .ok x => ⟨first.calls ++ (next x).calls, (next x).answer⟩

@[simp] theorem andThen_error (cs : List CallRecord) (e : EvalError) (next : α → Narrated β) :
    andThen ⟨cs, .error e⟩ next = ⟨cs, .error e⟩ := rfl

@[simp] theorem andThen_ok (cs : List CallRecord) (x : α) (next : α → Narrated β) :
    andThen ⟨cs, .ok x⟩ next = ⟨cs ++ (next x).calls, (next x).answer⟩ := rfl

end Narrated

@[simp] theorem isOk_error {α : Type} (e : EvalError) : (Except.error e : Except EvalError α).isOk = false := rfl

@[simp] theorem isOk_ok {α : Type} (x : α) : (Except.ok x : Except EvalError α).isOk = true := rfl

open Narrated (silent)

variable [Platform] {r : Registry}

mutual

/-- The evaluation of a tree, with `budget` left for the levels below its root. -/
def narrate (r : Registry) (budget : Nat) : Expr → Narrated Binary64
  | .literal value => silent (.ok value)
  | .constant name position => silent (resolveConstant name position)
  | .unary op operand =>
    if budget = 0 then silent (.error .tooDeep)
    else (narrate r (budget - 1) operand).andThen fun x => silent (.ok (op.apply x))
  | .binary op left right =>
    if budget = 0 then silent (.error .tooDeep)
    else
      (narrate r (budget - 1) left).andThen fun x =>
        (narrate r (budget - 1) right).andThen fun y => silent (.ok (op.apply x y))
  | .call name arguments position =>
    (silent (r.resolve name position arguments.length)).andThen fun f =>
      (narrateAll r budget arguments).andThen fun values =>
        ⟨[⟨f.name, values, f.body.apply values⟩], .ok (f.body.apply values).toBinary64⟩

def narrateAll (r : Registry) (budget : Nat) : List Expr → Narrated (List Binary64)
  | [] => silent (.ok [])
  | e :: rest =>
    if budget < callCost then silent (.error .tooDeep)
    else
      (narrate r (budget - callCost) e).andThen fun x =>
        (narrateAll r budget rest).andThen fun values => silent (.ok (x :: values))

end

mutual

/-- **An evaluation logs the completed calls**, unless the tree is too deep for the budget. -/
theorem narrate_eq : ∀ (e : Expr) (budget : Nat), evalWithin r budget e ≠ .error .tooDeep →
    narrate r budget e = ⟨calls r e, eval r e⟩
  | .literal _, _, _ => rfl
  | .constant .., _, _ => rfl
  | .unary op operand, budget, h => by
    rw [evalWithin] at h
    rw [narrate, calls, eval]
    by_cases hbudget : budget = 0
    · rw [if_pos hbudget] at h
      exact absurd rfl h
    · rw [if_neg hbudget] at h ⊢
      have hoperand : evalWithin r (budget - 1) operand ≠ .error .tooDeep := fun hdeep => h (by rw [hdeep])
      rw [narrate_eq operand _ hoperand]
      cases eval r operand with
      | error e => rfl
      | ok x => simp [silent]
  | .binary op left right, budget, h => by
    rw [evalWithin] at h
    rw [narrate, calls, eval]
    by_cases hbudget : budget = 0
    · rw [if_pos hbudget] at h
      exact absurd rfl h
    · rw [if_neg hbudget] at h ⊢
      have hleft : evalWithin r (budget - 1) left ≠ .error .tooDeep := fun hdeep => h (by rw [hdeep])
      rw [narrate_eq left _ hleft]
      rw [evalWithin_eq_eval hleft] at h
      cases hx : eval r left with
      | error e => simp
      | ok x =>
        rw [hx] at h
        have hright : evalWithin r (budget - 1) right ≠ .error .tooDeep := fun hdeep => h (by rw [hdeep])
        simp only [Narrated.andThen_ok, narrate_eq right _ hright]
        cases eval r right with
        | error e => simp
        | ok y => simp [silent]
  | .call name arguments position, budget, h => by
    rw [evalWithin] at h
    rw [narrate, calls, eval]
    cases hf : r.resolve name position arguments.length with
    | error e => rfl
    | ok f =>
      rw [hf] at h
      have hall : evalAllWithin r budget arguments ≠ .error .tooDeep := fun hdeep => h (by rw [hdeep])
      simp only [silent, Narrated.andThen_ok, narrateAll_eq arguments budget hall]
      cases evalAll r arguments with
      | error e => simp
      | ok values => simp

theorem narrateAll_eq : ∀ (es : List Expr) (budget : Nat), evalAllWithin r budget es ≠ .error .tooDeep →
    narrateAll r budget es = ⟨callsAll r es, evalAll r es⟩
  | [], _, _ => rfl
  | e :: rest, budget, h => by
    rw [evalAllWithin] at h
    rw [narrateAll, callsAll, evalAll]
    by_cases hbudget : budget < callCost
    · rw [if_pos hbudget] at h
      exact absurd rfl h
    · rw [if_neg hbudget] at h ⊢
      have hfirst : evalWithin r (budget - callCost) e ≠ .error .tooDeep := fun hdeep => h (by rw [hdeep])
      rw [narrate_eq e _ hfirst]
      rw [evalWithin_eq_eval hfirst] at h
      cases hx : eval r e with
      | error e => simp
      | ok x =>
        rw [hx] at h
        have hrest : evalAllWithin r budget rest ≠ .error .tooDeep := fun hdeep => h (by rw [hdeep])
        simp only [Narrated.andThen_ok, narrateAll_eq rest budget hrest]
        cases evalAll r rest with
        | error e => simp
        | ok values => simp [silent]

end

/-! ## The way around a tree -/

/-- A moment of the way around a tree. -/
inductive Passage where
  /-- A node is reached, before its operands. -/
  | reached (node : Expr)
  /-- A node is passed, behind its operands. -/
  | passed (node : Expr)

mutual

/-- The way around a tree, through the operands of a node from left to right. -/
def passages : Expr → List Passage
  | .literal value => [.reached (.literal value), .passed (.literal value)]
  | .constant name position => [.reached (.constant name position), .passed (.constant name position)]
  | .unary op operand => .reached (.unary op operand) :: (passages operand ++ [.passed (.unary op operand)])
  | .binary op left right =>
    .reached (.binary op left right) :: (passages left ++ passages right ++ [.passed (.binary op left right)])
  | .call name arguments position =>
    .reached (.call name arguments position) :: (passagesAll arguments ++ [.passed (.call name arguments position)])

def passagesAll : List Expr → List Passage
  | [] => []
  | e :: rest => passages e ++ passagesAll rest

end

namespace Passage

/-- An evaluation goes on: it has not reached a node whose name is wrong. -/
def goesOn (r : Registry) : Passage → Bool
  | reached node => (Visit.fault? r ⟨node, 0⟩).isNone
  | passed _ => true

/-- The record of a call that is passed. -/
def completed? (r : Registry) : Passage → Option CallRecord
  | passed (.call name arguments position) =>
    match r.resolve name position arguments.length, evalAll r arguments with
    | .ok f, .ok values => some ⟨f.name, values, f.body.apply values⟩
    | _, _ => none
  | _ => none

/-- The calls that are passed on a part of the way, up to the first wrong name. -/
def completed (r : Registry) (way : List Passage) : List CallRecord :=
  (way.takeWhile (goesOn r)).filterMap (completed? r)

theorem completed_cons_of_goesOn {p : Passage} (h : p.goesOn r = true) (way : List Passage) :
    completed r (p :: way) = (p.completed? r).toList ++ completed r way := by
  rw [completed, List.takeWhile_cons_of_pos h, List.filterMap_cons]
  cases p.completed? r <;> rfl

theorem completed_cons_of_not_goesOn {p : Passage} (h : p.goesOn r = false) (way : List Passage) :
    completed r (p :: way) = [] := by
  rw [completed, List.takeWhile_cons_of_neg (by rw [h]; decide)]
  rfl

theorem completed_append : ∀ first second : List Passage,
    completed r (first ++ second) = completed r first ++ if first.all (goesOn r) then completed r second else []
  | [], second => rfl
  | p :: first, second => by
    rw [List.cons_append, List.all_cons]
    cases hp : p.goesOn r with
    | false => simp [completed_cons_of_not_goesOn hp]
    | true =>
      rw [completed_cons_of_goesOn hp, completed_cons_of_goesOn hp, completed_append first second, Bool.true_and,
        List.append_assoc]

end Passage

/-- The calls of a tree that an evaluation completes, in postorder and up to the first wrong name. -/
def completedCalls (r : Registry) (e : Expr) : List CallRecord := Passage.completed r (passages e)

open Passage

mutual

/-- The way is gone to its end if the tree has a value. -/
theorem all_passages : ∀ (e : Expr) (r : Registry), (passages e).all (goesOn r) = (eval r e).isOk
  | .literal _, _ => rfl
  | .constant name position, r => by
    simp only [passages, List.all_cons, goesOn, Visit.fault?, eval, List.all_nil, Bool.and_true]
    cases resolveConstant name position <;> rfl
  | .unary op operand, r => by
    rw [passages, List.all_cons, List.all_append, all_passages operand r, eval]
    cases eval r operand <;> rfl
  | .binary op left right, r => by
    rw [passages, List.all_cons, List.all_append, List.all_append, all_passages left r, all_passages right r, eval]
    cases eval r left with
    | error e => rfl
    | ok x => cases eval r right <;> rfl
  | .call name arguments position, r => by
    rw [passages, List.all_cons, List.all_append, all_passagesAll arguments r, eval]
    simp only [goesOn, Visit.fault?]
    cases r.resolve name position arguments.length with
    | error e => rfl
    | ok f => cases evalAll r arguments <;> rfl

theorem all_passagesAll : ∀ (es : List Expr) (r : Registry), (passagesAll es).all (goesOn r) = (evalAll r es).isOk
  | [], _ => rfl
  | e :: rest, r => by
    rw [passagesAll, List.all_append, all_passages e r, all_passagesAll rest r, evalAll]
    cases eval r e with
    | error e => rfl
    | ok x => cases evalAll r rest <;> rfl

end

mutual

/-- **The calls that are completed** are those that the way around the tree passes before the first wrong name. -/
theorem calls_eq_completedCalls : ∀ (e : Expr) (r : Registry), calls r e = completedCalls r e
  | .literal _, _ => rfl
  | .constant name position, r => by
    rw [calls, completedCalls, passages]
    cases hgoes : goesOn r (.reached (.constant name position)) with
    | true => rw [completed_cons_of_goesOn hgoes]; rfl
    | false => rw [completed_cons_of_not_goesOn hgoes]
  | .unary op operand, r => by
    have hpassed : completed r [.passed (.unary op operand)] = [] := rfl
    rw [calls, completedCalls, passages, completed_cons_of_goesOn rfl, completed_append, hpassed, ite_self,
      List.append_nil, calls_eq_completedCalls operand r]
    rfl
  | .binary op left right, r => by
    have hpassed : completed r [.passed (.binary op left right)] = [] := rfl
    rw [calls, completedCalls, passages, completed_cons_of_goesOn rfl, completed_append, completed_append, hpassed,
      ite_self, List.append_nil, all_passages left r, calls_eq_completedCalls left r, calls_eq_completedCalls right r]
    rfl
  | .call name arguments position, r => by
    rw [calls, completedCalls, passages]
    cases hf : r.resolve name position arguments.length with
    | error e =>
      have hgoes : goesOn r (.reached (.call name arguments position)) = false := by
        simp only [goesOn, Visit.fault?, hf]
        rfl
      rw [completed_cons_of_not_goesOn hgoes]
    | ok f =>
      have hgoes : goesOn r (.reached (.call name arguments position)) = true := by
        simp only [goesOn, Visit.fault?, hf]
        rfl
      have hpassed : completed r [.passed (.call name arguments position)] =
          match evalAll r arguments with
          | .error _ => []
          | .ok values => [⟨f.name, values, f.body.apply values⟩] := by
        rw [completed_cons_of_goesOn rfl]
        simp only [completed?, hf]
        cases evalAll r arguments <;> rfl
      rw [completed_cons_of_goesOn hgoes, completed_append, hpassed, all_passagesAll arguments r,
        callsAll_eq_completed arguments r]
      cases evalAll r arguments <;> rfl

theorem callsAll_eq_completed : ∀ (es : List Expr) (r : Registry), callsAll r es = completed r (passagesAll es)
  | [], _ => rfl
  | e :: rest, r => by
    rw [callsAll, passagesAll, completed_append, all_passages e r, calls_eq_completedCalls e r, callsAll_eq_completed rest r]
    rfl

end

end Calculator
