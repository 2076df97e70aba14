import Calculator.Failure
/-!
# The walk of an evaluation

An evaluation reaches the nodes of a tree in a fixed order, each before its operands and those from left to right
(`walk`), and it stops at the first node that it cannot pass: one whose name is wrong or, under a budget, one whose path
costs more than the budget.  Which node that is decides about the result (`evalWithin_eq_halted`), so a budget can only
replace an answer by "too deep" and never by another answer (`stack_limit_transparent`).
-/
namespace Calculator

/-- A node that the walk reaches, and what the path to it takes from the budget. -/
structure Visit where
  node : Expr
  cost : Nat

mutual

/-- The nodes of a tree in the order in which they are reached, if the path to its root costs `cost`. -/
def walk (cost : Nat) : Expr → List Visit
  | .literal value => [⟨.literal value, cost⟩]
  | .constant name position => [⟨.constant name position, cost⟩]
  | .unary op operand => ⟨.unary op operand, cost⟩ :: walk (cost + 1) operand
  | .binary op left right => ⟨.binary op left right, cost⟩ :: (walk (cost + 1) left ++ walk (cost + 1) right)
  | .call name arguments position => ⟨.call name arguments position, cost⟩ :: walkAll (cost + callCost) arguments

def walkAll (cost : Nat) : List Expr → List Visit
  | [] => []
  | e :: rest => walk cost e ++ walkAll cost rest

end

def failure? {α : Type} : Except EvalError α → Option EvalError
  | .error e => some e
  | .ok _ => none

namespace Visit

/-- What is wrong with the name at a node. -/
def fault? (r : Registry) (v : Visit) : Option EvalError :=
  match v.node with
  | .constant name position => failure? (resolveConstant name position)
  | .call name arguments position => failure? (r.resolve name position arguments.length)
  | _ => none

/-- Why a walk with a budget stops at a node, if it does. -/
def stop? (r : Registry) (budget : Nat) (v : Visit) : Option EvalError :=
  if budget < v.cost then some .tooDeep else v.fault? r

end Visit

/-- An answer, unless the walk to it was stopped. -/
def halted {α : Type} (stop : Option EvalError) (answer : Except EvalError α) : Except EvalError α :=
  match stop with
  | some e => .error e
  | none => answer

mutual

/-- What the longest path through a tree costs. -/
def Expr.heightCost : Expr → Nat
  | .literal _ | .constant .. => 0
  | .unary _ operand => operand.heightCost + 1
  | .binary _ left right => max left.heightCost right.heightCost + 1
  | .call _ arguments _ => heightCostAll arguments

/-- What the longest path through a call costs, below the call. -/
def heightCostAll : List Expr → Nat
  | [] => 0
  | e :: rest => max (e.heightCost + callCost) (heightCostAll rest)

end

variable {r : Registry}

/-! ## Faults -/

theorem fault?_ne_tooDeep (v : Visit) : v.fault? r ≠ some .tooDeep := by
  obtain ⟨node, cost⟩ := v
  cases node with
  | literal | unary | binary => nofun
  | constant name position =>
    simp only [Visit.fault?, resolveConstant]
    split <;> nofun
  | call name arguments position =>
    simp only [Visit.fault?, Registry.resolve]
    split
    · nofun
    · split <;> nofun

mutual

/-- **Without a budget, the first wrong name decides.** -/
theorem failure?_eval [Platform] : ∀ (e : Expr) (cost : Nat),
    failure? (eval r e) = (walk cost e).findSome? (Visit.fault? r)
  | .literal _, _ => rfl
  | .constant name position, cost => by
    simp only [eval, walk, List.findSome?_cons, List.findSome?_nil, Visit.fault?]
    cases failure? (resolveConstant name position) <;> rfl
  | .unary op operand, cost => by
    have ih := failure?_eval operand (cost + 1)
    have hnode : Visit.fault? r ⟨.unary op operand, cost⟩ = none := rfl
    rw [walk, List.findSome?_cons, hnode, ← ih, eval]
    cases eval r operand <;> rfl
  | .binary op left right, cost => by
    have hleft := failure?_eval left (cost + 1)
    have hright := failure?_eval right (cost + 1)
    have hnode : Visit.fault? r ⟨.binary op left right, cost⟩ = none := rfl
    rw [walk, List.findSome?_cons, hnode, List.findSome?_append, ← hleft, ← hright, eval]
    cases eval r left with
    | error e => rfl
    | ok x => cases eval r right <;> rfl
  | .call name arguments position, cost => by
    have hall := failure?_evalAll arguments (cost + callCost)
    have hnode : Visit.fault? r ⟨.call name arguments position, cost⟩ =
      failure? (r.resolve name position arguments.length) := rfl
    rw [walk, List.findSome?_cons, hnode, ← hall, eval]
    cases r.resolve name position arguments.length with
    | error e => rfl
    | ok f => cases evalAll r arguments <;> rfl

theorem failure?_evalAll [Platform] : ∀ (es : List Expr) (cost : Nat),
    failure? (evalAll r es) = (walkAll cost es).findSome? (Visit.fault? r)
  | [], _ => rfl
  | e :: rest, cost => by
    have he := failure?_eval e cost
    have hrest := failure?_evalAll rest cost
    rw [walkAll, List.findSome?_append, ← he, ← hrest, evalAll]
    cases eval r e with
    | error e => rfl
    | ok x => cases evalAll r rest <;> rfl

end

theorem eval_ne_tooDeep [Platform] (e : Expr) : eval r e ≠ .error .tooDeep := by
  intro h
  have hfault : (walk 0 e).findSome? (Visit.fault? r) = some .tooDeep := by rw [← failure?_eval, h]; rfl
  obtain ⟨v, -, hv⟩ := List.exists_of_findSome?_eq_some hfault
  exact fault?_ne_tooDeep v hv

/-! ## A budget -/

variable {budget : Nat}

theorem stop?_of_lt {v : Visit} (h : budget < v.cost) : v.stop? r budget = some .tooDeep := if_pos h

theorem stop?_of_le {v : Visit} (h : v.cost ≤ budget) : v.stop? r budget = v.fault? r := if_neg (Nat.not_lt.2 h)

theorem walk_eq_cons (cost : Nat) (e : Expr) : ∃ below, walk cost e = ⟨e, cost⟩ :: below := by
  cases e <;> exact ⟨_, rfl⟩

/-- The walk does not come to a node whose path costs too much. -/
theorem findSome?_stop?_of_lt {cost : Nat} (e : Expr) (h : budget < cost) :
    (walk cost e).findSome? (Visit.stop? r budget) = some .tooDeep := by
  obtain ⟨below, hwalk⟩ := walk_eq_cons cost e
  have hstop : Visit.stop? r budget ⟨e, cost⟩ = some .tooDeep := stop?_of_lt h
  rw [hwalk, List.findSome?_cons, hstop]

/-- What stops a walk under a budget, if it is not the budget, stops it without one. -/
theorem findSome?_fault?_eq : ∀ visits : List Visit, visits.findSome? (Visit.stop? r budget) ≠ some .tooDeep →
    visits.findSome? (Visit.fault? r) = visits.findSome? (Visit.stop? r budget)
  | [], _ => rfl
  | v :: rest, h => by
    rw [List.findSome?_cons] at h
    have hcost : v.cost ≤ budget := by
      refine Nat.not_lt.1 fun hlt => ?_
      rw [stop?_of_lt hlt] at h
      exact h rfl
    rw [stop?_of_le hcost] at h
    rw [List.findSome?_cons, List.findSome?_cons, stop?_of_le hcost]
    cases hfault : v.fault? r with
    | some e => rfl
    | none =>
      rw [hfault] at h
      exact findSome?_fault?_eq rest h

theorem failure?_eq_some {α : Type} {answer : Except EvalError α} {e : EvalError} :
    failure? answer = some e ↔ answer = .error e := by
  cases answer <;> simp [failure?]

theorem exists_ok_of_failure? {α : Type} {answer : Except EvalError α} (h : failure? answer = none) :
    ∃ x, answer = .ok x := by
  cases answer with
  | error e => cases h
  | ok x => exact ⟨x, rfl⟩

theorem eval_ok_of_passed [Platform] {e : Expr} {cost : Nat}
    (h : (walk cost e).findSome? (Visit.stop? r budget) = none) :
    ∃ x, eval r e = .ok x :=
  exists_ok_of_failure? ((failure?_eval e cost).trans
    ((findSome?_fault?_eq _ (by rw [h]; nofun)).trans h))

mutual

/-- **The first node that the walk cannot pass decides**, and if it passes all of them the budget does not matter. -/
theorem evalWithin_eq_halted [Platform] : ∀ (e : Expr) (cost left : Nat), cost + left = budget →
    evalWithin r left e = halted ((walk cost e).findSome? (Visit.stop? r budget)) (eval r e)
  | .literal value, cost, left, h => by
    have hnode : Visit.stop? r budget ⟨.literal value, cost⟩ = none := stop?_of_le (Nat.le.intro h)
    rw [walk, List.findSome?_cons, hnode]
    rfl
  | .constant name position, cost, left, h => by
    have hnode : Visit.stop? r budget ⟨.constant name position, cost⟩ = failure? (resolveConstant name position) :=
      stop?_of_le (Nat.le.intro h)
    rw [walk, List.findSome?_cons, hnode, evalWithin, eval]
    cases resolveConstant name position <;> rfl
  | .unary op operand, cost, left, h => by
    have hnode : Visit.stop? r budget ⟨.unary op operand, cost⟩ = none := stop?_of_le (Nat.le.intro h)
    rw [walk, List.findSome?_cons, hnode, evalWithin, eval]
    by_cases hleft : left = 0
    · rw [if_pos hleft, findSome?_stop?_of_lt operand (by omega)]
      rfl
    · rw [if_neg hleft, evalWithin_eq_halted operand (cost + 1) (left - 1) (by omega)]
      cases (walk (cost + 1) operand).findSome? (Visit.stop? r budget) <;> rfl
  | .binary op e₁ e₂, cost, left, h => by
    have hnode : Visit.stop? r budget ⟨.binary op e₁ e₂, cost⟩ = none := stop?_of_le (Nat.le.intro h)
    rw [walk, List.findSome?_cons, hnode, List.findSome?_append, evalWithin, eval]
    by_cases hleft : left = 0
    · rw [if_pos hleft, findSome?_stop?_of_lt e₁ (by omega)]
      rfl
    · rw [if_neg hleft, evalWithin_eq_halted e₁ (cost + 1) (left - 1) (by omega),
        evalWithin_eq_halted e₂ (cost + 1) (left - 1) (by omega)]
      cases hpass : (walk (cost + 1) e₁).findSome? (Visit.stop? r budget) with
      | some e => rfl
      | none =>
        -- the right operand is only reached behind a left one that has a value
        obtain ⟨x, hx⟩ := eval_ok_of_passed hpass
        rw [hx]
        cases (walk (cost + 1) e₂).findSome? (Visit.stop? r budget) <;> rfl
  | .call name arguments position, cost, left, h => by
    have hnode : Visit.stop? r budget ⟨.call name arguments position, cost⟩ =
      failure? (r.resolve name position arguments.length) := stop?_of_le (Nat.le.intro h)
    rw [walk, List.findSome?_cons, hnode, evalWithin, eval]
    cases r.resolve name position arguments.length with
    | error e => rfl
    | ok f =>
      rw [evalAllWithin_eq_halted arguments cost left h]
      simp only [failure?]
      cases (walkAll (cost + callCost) arguments).findSome? (Visit.stop? r budget) <;> rfl

theorem evalAllWithin_eq_halted [Platform] : ∀ (es : List Expr) (cost left : Nat), cost + left = budget →
    evalAllWithin r left es = halted ((walkAll (cost + callCost) es).findSome? (Visit.stop? r budget)) (evalAll r es)
  | [], _, _, _ => rfl
  | e :: rest, cost, left, h => by
    rw [walkAll, List.findSome?_append, evalAllWithin, evalAll]
    by_cases hleft : left < callCost
    · rw [if_pos hleft, findSome?_stop?_of_lt e (by omega)]
      rfl
    · rw [if_neg hleft, evalWithin_eq_halted e (cost + callCost) (left - callCost) (by omega),
        evalAllWithin_eq_halted rest cost left h]
      cases hpass : (walk (cost + callCost) e).findSome? (Visit.stop? r budget) with
      | some e => rfl
      | none =>
        obtain ⟨x, hx⟩ := eval_ok_of_passed hpass
        rw [hx]
        cases (walkAll (cost + callCost) rest).findSome? (Visit.stop? r budget) <;> rfl

end

/-! ## More and less budget -/

theorem stop?_eq_tooDeep {v : Visit} (h : v.stop? r budget = some .tooDeep) : budget < v.cost := by
  refine Nat.not_le.1 fun hle => ?_
  rw [stop?_of_le hle] at h
  exact fault?_ne_tooDeep v h

theorem evalWithin_eq_eval [Platform] {e : Expr} (h : evalWithin r budget e ≠ .error .tooDeep) :
    evalWithin r budget e = eval r e := by
  have hbudget := evalWithin_eq_halted (r := r) e 0 budget (Nat.zero_add budget)
  cases hstop : (walk 0 e).findSome? (Visit.stop? r budget) with
  | none =>
    rw [hstop] at hbudget
    exact hbudget
  | some stop =>
    rw [hstop] at hbudget
    have hne : (walk 0 e).findSome? (Visit.stop? r budget) ≠ some .tooDeep := by
      rintro hdeep
      cases hstop.symm.trans hdeep
      exact h hbudget
    have heval : failure? (eval r e) = some stop := by
      rw [failure?_eval e 0, findSome?_fault?_eq _ hne, hstop]
    rw [hbudget, failure?_eq_some.1 heval]
    rfl

theorem evalWithin_eq_tooDeep [Platform] {e : Expr} :
    evalWithin r budget e = .error .tooDeep ↔ (walk 0 e).findSome? (Visit.stop? r budget) = some .tooDeep := by
  rw [evalWithin_eq_halted e 0 budget (Nat.zero_add budget)]
  cases (walk 0 e).findSome? (Visit.stop? r budget) with
  | none => simp [halted, eval_ne_tooDeep e]
  | some e' => simp [halted]

/-- **The walk is too deep for the budget** if it comes to a node that costs too much before it meets a wrong name. -/
theorem findSome?_stop?_eq_tooDeep {visits : List Visit} :
    visits.findSome? (Visit.stop? r budget) = some .tooDeep ↔
      ∃ before v after, visits = before ++ v :: after ∧ budget < v.cost ∧ ∀ u ∈ before, u.fault? r = none := by
  constructor
  · intro h
    obtain ⟨before, v, after, hvisits, hv, hbefore⟩ := List.findSome?_eq_some_iff.1 h
    refine ⟨before, v, after, hvisits, stop?_eq_tooDeep hv, ?_⟩
    have hpass : before.findSome? (Visit.stop? r budget) = none := List.findSome?_eq_none_iff.2 hbefore
    exact List.findSome?_eq_none_iff.1 ((findSome?_fault?_eq before (by rw [hpass]; nofun)).trans hpass)
  · rintro ⟨before, v, after, rfl, hv, hbefore⟩
    rw [List.findSome?_append, List.findSome?_cons, stop?_of_lt hv]
    cases hstop : before.findSome? (Visit.stop? r budget) with
    | none => rfl
    | some e =>
      -- a node before it that stops the walk has no wrong name, so it costs too much as well
      obtain ⟨u, hu, hstop⟩ := List.exists_of_findSome?_eq_some hstop
      have hcost : budget < u.cost := by
        refine Nat.not_le.1 fun hle => ?_
        rw [stop?_of_le hle, hbefore u hu] at hstop
        cases hstop
      rw [stop?_of_lt hcost] at hstop
      rw [← hstop]
      rfl

mutual

theorem cost_le_of_mem_walk : ∀ (e : Expr) (cost : Nat), ∀ v ∈ walk cost e, v.cost ≤ cost + e.heightCost
  | .literal _, cost, v, hv | .constant .., cost, v, hv => by
    rw [walk, List.mem_singleton] at hv
    rw [hv]
    exact Nat.le_add_right _ _
  | .unary op operand, cost, v, hv => by
    rw [walk, List.mem_cons] at hv
    rw [Expr.heightCost]
    rcases hv with rfl | hv
    · exact Nat.le_add_right _ _
    · have := cost_le_of_mem_walk operand (cost + 1) v hv
      omega
  | .binary op left right, cost, v, hv => by
    rw [walk, List.mem_cons, List.mem_append] at hv
    rw [Expr.heightCost]
    rcases hv with rfl | hv | hv
    · exact Nat.le_add_right _ _
    · have := cost_le_of_mem_walk left (cost + 1) v hv
      omega
    · have := cost_le_of_mem_walk right (cost + 1) v hv
      omega
  | .call name arguments position, cost, v, hv => by
    rw [walk, List.mem_cons] at hv
    rw [Expr.heightCost]
    rcases hv with rfl | hv
    · exact Nat.le_add_right _ _
    · exact cost_le_of_mem_walkAll arguments cost v hv

theorem cost_le_of_mem_walkAll : ∀ (es : List Expr) (cost : Nat),
    ∀ v ∈ walkAll (cost + callCost) es, v.cost ≤ cost + heightCostAll es
  | [], _, _, hv => by cases hv
  | e :: rest, cost, v, hv => by
    rw [walkAll, List.mem_append] at hv
    rw [heightCostAll]
    rcases hv with hv | hv
    · have := cost_le_of_mem_walk e (cost + callCost) v hv
      omega
    · have := cost_le_of_mem_walkAll rest cost v hv
      omega

end

/-- **The budget never changes an answer.**  Under a budget a tree has the value or the error that it has without one,
or it is too deep.  It is too deep exactly if the walk comes to a node whose path costs more than the budget before it
meets a wrong name.  So any other answer is the same under every larger budget, and a tree whose height costs no more
than the budget is not too deep. -/
theorem stack_limit_transparent [Platform] (r : Registry) (budget : Nat) (e : Expr) :
    (evalWithin r budget e = eval r e ∨ evalWithin r budget e = .error .tooDeep) ∧
    eval r e ≠ .error .tooDeep ∧
    (EvalError.tooDeep.position? = none ∧ EvalError.tooDeep.name = []) ∧
    (evalWithin r budget e = .error .tooDeep ↔
      ∃ before v after, walk 0 e = before ++ v :: after ∧ budget < v.cost ∧ ∀ u ∈ before, u.fault? r = none) ∧
    (∀ larger, budget ≤ larger → evalWithin r budget e ≠ .error .tooDeep →
      evalWithin r larger e = evalWithin r budget e) ∧
    (e.heightCost ≤ budget → evalWithin r budget e ≠ .error .tooDeep) := by
  have hdeep : ∀ budget, evalWithin r budget e = .error .tooDeep ↔
      ∃ before v after, walk 0 e = before ++ v :: after ∧ budget < v.cost ∧ ∀ u ∈ before, u.fault? r = none :=
    fun budget => evalWithin_eq_tooDeep.trans findSome?_stop?_eq_tooDeep
  refine ⟨?_, eval_ne_tooDeep e, ⟨rfl, rfl⟩, hdeep budget, fun larger hle hne => ?_, fun hheight htooDeep => ?_⟩
  · by_cases h : evalWithin r budget e = .error .tooDeep
    · exact .inr h
    · exact .inl (evalWithin_eq_eval h)
  · have hlarger : evalWithin r larger e ≠ .error .tooDeep := by
      intro h
      obtain ⟨before, v, after, hwalk, hcost, hbefore⟩ := (hdeep larger).1 h
      exact hne ((hdeep budget).2 ⟨before, v, after, hwalk, Nat.lt_of_le_of_lt hle hcost, hbefore⟩)
    rw [evalWithin_eq_eval hlarger, evalWithin_eq_eval hne]
  · obtain ⟨before, v, after, hwalk, hcost, -⟩ := (hdeep budget).1 htooDeep
    have hv : v ∈ walk 0 e := by
      rw [hwalk]
      exact List.mem_append_right _ List.mem_cons_self
    have := cost_le_of_mem_walk e 0 v hv
    omega

end Calculator
