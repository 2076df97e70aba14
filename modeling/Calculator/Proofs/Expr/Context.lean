import Calculator.Proofs.Expr.Run
/-!
# Trees with a hole

The parser builds trees and never looks into them.  So if one tree in its state is left open, a hole, then what it does
with the tokens that follow is the same whatever is in the hole: it stops at the same fault, or it comes to a state, and
in the end to a tree, that has the hole in the same place (`ParserState.Context.run_uniform`).

The tree with the hole is the value at hand, or it waits in a level, as the left operand of an operator or as a complete
argument of a call.
-/
namespace Calculator

/-! ## Holes in trees and in states -/

/-- A tree with a hole. -/
inductive Expr.Context where
  | hole
  | unary (op : UnaryOp) (inside : Expr.Context)
  | left (op : BinaryOp) (inside : Expr.Context) (other : Expr)
  | right (op : BinaryOp) (other : Expr) (inside : Expr.Context)
  | argument (name : Text) (before : List Expr) (inside : Expr.Context) (after : List Expr) (position : Option Int)

/-- The tree with something in the hole. -/
def Expr.Context.fill : Expr.Context → Expr → Expr
  | .hole, e => e
  | .unary op inside, e => .unary op (inside.fill e)
  | .left op inside other, e => .binary op (inside.fill e) other
  | .right op other inside, e => .binary op other (inside.fill e)
  | .argument name before inside after position, e => .call name (before ++ inside.fill e :: after) position

/-- A level with a hole in a tree that waits there. -/
inductive Level.Context where
  /-- An argument behind the one with the hole; the arguments between them and before it, the last one first. -/
  | argument (name opening : Token) (later : List Expr) (inside : Expr.Context) (earlier : List Expr)
  | rightOperand (op : BinaryOp) (inside : Expr.Context)

def Level.Context.fill : Level.Context → Expr → Level
  | .argument name opening later inside earlier, e => .argument name opening (later ++ inside.fill e :: earlier)
  | .rightOperand op inside, e => .rightOperand op (inside.fill e)

/-- A state with a hole, in the value at hand or in a level. -/
inductive ParserState.Context where
  | value (levels : List Level) (inside : Expr.Context)
  | level (inner : List Level) (inside : Level.Context) (outer : List Level) (focus : Focus)

def ParserState.Context.fill : ParserState.Context → Expr → ParserState
  | .value levels inside, e => ⟨levels, .value (inside.fill e)⟩
  | .level inner inside outer focus, e => ⟨inner ++ inside.fill e :: outer, focus⟩

/-- The same happens whatever is in the hole, and what comes of it has the hole in the same place. -/
def Uniform {α β : Type} (fill : β → Expr → α) (outcome : Expr → Except ParseFailure α) : Prop :=
  ∃ holed : Except ParseFailure β, ∀ e, outcome e = holed.map (fill · e)

section Uniform

variable {α β : Type} {fill : β → Expr → α} {outcome : Expr → Except ParseFailure α}

theorem Uniform.error (f : ParseFailure) (h : ∀ e, outcome e = .error f) : Uniform fill outcome := ⟨.error f, h⟩

theorem Uniform.ok (holed : β) (h : ∀ e, outcome e = .ok (fill holed e)) : Uniform fill outcome := ⟨.ok holed, h⟩

theorem Uniform.of_eq {outcome' : Expr → Except ParseFailure α} (h : Uniform fill outcome')
    (heq : ∀ e, outcome e = outcome' e) : Uniform fill outcome := by
  obtain ⟨holed, hholed⟩ := h
  exact ⟨holed, fun e => (heq e).trans (hholed e)⟩

end Uniform

/-- A state with more levels around those that are open. -/
def ParserState.above (s : ParserState) (outer : List Level) : ParserState := ⟨s.levels ++ outer, s.focus⟩

/-- A token that starts a value does not look at the open levels. -/
theorem startValue_above (inner outer : List Level) (t : Token) :
    startValue (inner ++ outer) t = (startValue inner t).map (·.above outer) := by
  unfold startValue
  split
  · split <;> rfl
  · rfl
  · rfl
  · split <;> rfl

namespace ParserState.Context

variable {t : Token}

/-! ## Behind a value -/

/-- **Behind a value with a hole.** -/
theorem stepBehind_value : ∀ (levels : List Level) (inside : Expr.Context),
    Uniform fill fun e => stepBehind t (inside.fill e) levels := by
  -- an operator is taken, or not, without a look at the value
  have htaken : ∀ (levels : List Level) (inside : Expr.Context) (op : Operation), taken? levels t = some op →
      Uniform fill fun e => stepBehind t (inside.fill e) levels := by
    intro levels inside op h
    cases op with
    | unary op => exact .ok (.value levels (.unary op inside)) fun e => stepBehind_taken _ h
    | binary op => exact .ok (.level [] (.rightOperand op inside) levels .nothing) fun e => stepBehind_taken _ h
  intro levels
  induction levels with
  | nil =>
    intro inside
    cases h : taken? [] t with
    | some op => exact htaken [] inside op h
    | none => exact .error (atToken .trailing t) fun e => by rw [stepBehind, h]
  | cons level outer ih =>
    intro inside
    cases h : taken? (level :: outer) t with
    | some op => exact htaken (level :: outer) inside op h
    | none =>
      cases level with
      | group opening =>
        by_cases hc : t.kind = .bracketClose
        · exact .ok (.value outer inside) fun e => stepBehind_group_close _ hc
        · exact .error _ fun e => stepBehind_group_other _ h hc
      | argument name opening before =>
        by_cases hcomma : t.kind = .comma
        · exact .ok (.level [] (.argument name opening [] inside before) outer .nothing) fun e =>
            stepBehind_argument_comma _ hcomma
        by_cases hc : t.kind = .bracketClose
        · refine .ok (.value outer (.argument name.lexeme before.reverse inside [] (some name.position))) fun e => ?_
          rw [stepBehind_argument_close _ hc, List.reverse_cons]
          rfl
        · exact .error _ fun e => stepBehind_argument_other _ h hcomma hc
      | operand op => exact (ih (.unary op inside)).of_eq fun e => stepBehind_operand _ h
      | rightOperand op left => exact (ih (.right op left inside)).of_eq fun e => stepBehind_rightOperand _ h

/-- The operators that a level takes do not depend on what waits in it. -/
theorem taken?_fill (level : Level.Context) (outer : List Level) (e : Expr) :
    taken? (level.fill e :: outer) t = taken? (level.fill default :: outer) t := by
  cases level <;> rfl

/-- **Behind a value, with a hole in a level.** -/
theorem stepBehind_level (level : Level.Context) (outer : List Level) : ∀ (inner : List Level) (value : Expr),
    Uniform fill fun e => stepBehind t value (inner ++ level.fill e :: outer) := by
  have htaken : ∀ (inner : List Level) (value : Expr) (op : Operation),
      (∀ e, taken? (inner ++ level.fill e :: outer) t = some op) →
      Uniform fill fun e => stepBehind t value (inner ++ level.fill e :: outer) := by
    intro inner value op h
    cases op with
    | unary op => exact .ok (.level inner level outer (.value (.unary op value))) fun e => stepBehind_taken _ (h e)
    | binary op =>
      exact .ok (.level (.rightOperand op value :: inner) level outer .nothing) fun e => stepBehind_taken _ (h e)
  intro inner
  induction inner with
  | nil =>
    intro value
    cases h : taken? (level.fill default :: outer) t with
    | some op => exact htaken [] value op fun e => (taken?_fill level outer e).trans h
    | none =>
      have hnone : ∀ e, taken? (level.fill e :: outer) t = none := fun e => (taken?_fill level outer e).trans h
      cases level with
      | argument name opening later inside earlier =>
        by_cases hcomma : t.kind = .comma
        · exact .ok (.level [] (.argument name opening (value :: later) inside earlier) outer .nothing) fun e =>
            stepBehind_argument_comma _ hcomma
        by_cases hc : t.kind = .bracketClose
        · refine .ok (.value outer (.argument name.lexeme earlier.reverse inside (value :: later).reverse
            (some name.position))) fun e => ?_
          refine (stepBehind_argument_close _ hc).trans ?_
          rw [← List.cons_append, List.reverse_append, List.reverse_cons, List.append_assoc]
          rfl
        · exact .error _ fun e => stepBehind_argument_other _ (hnone e) hcomma hc
      | rightOperand op inside =>
        exact (stepBehind_value outer (.left op inside value)).of_eq fun e => stepBehind_rightOperand _ (hnone e)
  | cons first inner ih =>
    intro value
    cases h : taken? (first :: inner) t with
    | some op => exact htaken (first :: inner) value op fun e => h
    | none =>
      have hnone : ∀ e, taken? (first :: (inner ++ level.fill e :: outer)) t = none := fun e => h
      cases first with
      | group opening =>
        by_cases hc : t.kind = .bracketClose
        · exact .ok (.level inner level outer (.value value)) fun e => stepBehind_group_close _ hc
        · exact .error _ fun e => stepBehind_group_other _ (hnone e) hc
      | argument name opening before =>
        by_cases hcomma : t.kind = .comma
        · exact .ok (.level (.argument name opening (value :: before) :: inner) level outer .nothing) fun e =>
            stepBehind_argument_comma _ hcomma
        by_cases hc : t.kind = .bracketClose
        · exact .ok (.level inner level outer (.value (.call name.lexeme (value :: before).reverse
            (some name.position)))) fun e => stepBehind_argument_close _ hc
        · exact .error _ fun e => stepBehind_argument_other _ (hnone e) hcomma hc
      | operand op => exact (ih (.unary op value)).of_eq fun e => stepBehind_operand _ (hnone e)
      | rightOperand op left => exact (ih (.binary op left value)).of_eq fun e => stepBehind_rightOperand _ (hnone e)

/-! ## The end -/

theorem finishBehind_value : ∀ (levels : List Level) (inside : Expr.Context),
    Uniform Expr.Context.fill fun e => finishBehind t (inside.fill e) levels
  | [], inside => .ok inside fun _ => rfl
  | .group _ :: _, _ | .argument .. :: _, _ => .error _ fun _ => rfl
  | .operand op :: outer, inside => finishBehind_value outer (.unary op inside)
  | .rightOperand op left :: outer, inside => finishBehind_value outer (.right op left inside)

theorem finishBehind_level (level : Level.Context) (outer : List Level) : ∀ (inner : List Level) (tree : Expr),
    Uniform Expr.Context.fill fun e => finishBehind t tree (inner ++ level.fill e :: outer)
  | [], tree => by
    cases level with
    | argument => exact .error _ fun _ => rfl
    | rightOperand op inside => exact finishBehind_value outer (.left op inside tree)
  | .group _ :: _, _ | .argument .. :: _, _ => .error _ fun _ => rfl
  | .operand op :: inner, tree => finishBehind_level level outer inner (.unary op tree)
  | .rightOperand op left :: inner, tree => finishBehind_level level outer inner (.binary op left tree)

theorem finish_uniform (s : ParserState.Context) : Uniform Expr.Context.fill fun e => (s.fill e).finish t := by
  cases s with
  | value levels inside => exact finishBehind_value levels inside
  | level inner level outer focus =>
    cases focus with
    | nothing | callOpened => exact .error _ fun _ => rfl
    | name n => exact finishBehind_level level outer inner _
    | value value => exact finishBehind_level level outer inner value

/-! ## One token, and all tokens -/

theorem startValue_level (level : Level.Context) (outer inner : List Level) :
    Uniform fill fun e => startValue (inner ++ level.fill e :: outer) t := by
  cases hstart : startValue inner t with
  | error f => exact .error f fun e => by rw [startValue_above, hstart]; rfl
  | ok next =>
    exact .ok (.level next.levels level outer next.focus) fun e => by rw [startValue_above, hstart]; rfl

/-- **One token.** -/
theorem step_uniform (s : ParserState.Context) : Uniform fill fun e => (s.fill e).step t := by
  cases s with
  | value levels inside => exact stepBehind_value levels inside
  | level inner level outer focus =>
    cases focus with
    | nothing => exact startValue_level level outer inner
    | name n =>
      by_cases ho : t.kind = .bracketOpen
      · exact .ok (.level inner level outer (.callOpened n t)) fun e => by simp only [fill, step, ho, if_true]
      · exact (@stepBehind_level t level outer inner (.constant n.lexeme (some n.position))).of_eq fun e => by
          simp only [fill, step, ho, if_false]
    | callOpened name opening =>
      by_cases hc : t.kind = .bracketClose
      · exact .ok (.level inner level outer (.value (.call name.lexeme [] (some name.position)))) fun e => by
          simp only [fill, step, hc, if_true]
      · exact (@startValue_level t level outer (.argument name opening [] :: inner)).of_eq fun e => by
          simp only [fill, step, hc, if_false, List.cons_append]
    | value value => exact stepBehind_level level outer inner value

/-- **The rest of the tokens.**  Without a limit, what comes of them does not depend on what is in the hole. -/
theorem run_uniform (failure : Option ScanError) : ∀ (ts : List Token) (s : ParserState.Context) (stop : Int),
    Uniform Expr.Context.fill fun e => (s.fill e).run none failure stop ts
  | [], s, stop => by
    cases failure with
    | some e => exact .error _ fun _ => rfl
    | none => exact s.finish_uniform
  | t :: rest, s, stop => by
    cases he : t.isEnd with
    | true => exact s.finish_uniform.of_eq fun e => by rw [run, checkDepth_ok (within_none _), he]; rfl
    | false =>
      obtain ⟨holed, hstep⟩ := @step_uniform t s
      cases holed with
      | error f => exact .error f fun e => run_cons_error (within_none _) he (hstep e)
      | ok next => exact (run_uniform failure rest next t.stop).of_eq fun e => run_cons (within_none _) he (hstep e)

end ParserState.Context
end Calculator
