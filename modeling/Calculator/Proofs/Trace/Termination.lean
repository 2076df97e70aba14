import Calculator.Proofs.Expr.NestingLimit
import Calculator.Proofs.Trace.Lookahead
import Calculator.Proofs.Trace.Reading
/-!
# The descent ends without a limit

No limit is needed for the descent to end: what it does is paid for with tokens.  A step consumes a token, turns to
another task, opens a call or returns from one, and `Moved` says all that it can be.  Every call but the first is made
for a level, and a level is opened by the token that has been consumed last (`Grounded`).

So there are no more calls than tokens and the first one.  The balance of a moment counts the consumed tokens, and one
more for the first call, but not a token that is still to pay for the call that it opens (`Task.settled`).  No step
lowers the balance, and a call that is opened raises it (`Moved.balance_le`).
-/
namespace Calculator

open Cursor (StandsIn)

/-! ## What a step can be -/

/-- The token that a level is opened by. -/
def Level.OpenedBy (t : Token) : Level → Prop
  | .group opening => t = opening ∧ t.kind = .bracketOpen
  | .argument _ opening [] => t = opening ∧ t.kind = .bracketOpen
  | .argument _ _ (_ :: _) => t.kind = .comma
  | .operand op => t.kind.leading? = some op
  | .rightOperand op _ => t.kind.trailing? = some (.binary op)

/-- The tasks before and after a step that consumes a token. -/
inductive Consumes (t : Token) : Task → Task → Prop
  | number {x : Binary64} : Consumes t .primary (.operators (.literal x))
  | name : Consumes t .primary (.behindName t)
  | group : t.kind = .bracketOpen → Consumes t .primary (.call (some (.group t)))
  | leading {op : UnaryOp} : t.kind.leading? = some op → Consumes t .primary (.call (some (.operand op)))
  | callBracket {name : Token} : t.kind = .bracketOpen → Consumes t (.behindName name) (.arguments name t)
  | emptyCall {name opening : Token} :
      Consumes t (.arguments name opening) (.operators (.call name.lexeme [] (some name.position)))
  | unary {op : UnaryOp} {value : Expr} : Consumes t (.operators value) (.operators (.unary op value))
  | binary {op : BinaryOp} {value : Expr} : t.kind.trailing? = some (.binary op) →
      Consumes t (.operators value) (.call (some (.rightOperand op value)))
  | closeGroup {value : Expr} {opening : Token} :
      Consumes t (.returned value (some (.group opening))) (.operators value)
  | comma {value : Expr} {name opening : Token} {before : List Expr} : t.kind = .comma →
      Consumes t (.returned value (some (.argument name opening before)))
        (.call (some (.argument name opening (value :: before))))
  | closeCall {value : Expr} {name opening : Token} {before : List Expr} :
      Consumes t (.returned value (some (.argument name opening before)))
        (.operators (.call name.lexeme (value :: before).reverse (some name.position)))
  | fault {task : Task} {e : ParseFailure} : Consumes t task (.done (.error e))

/-- The tasks before and after a step within a call that consumes nothing. -/
inductive Turns : Task → Task → Prop
  | constant {name : Token} : Turns (.behindName name) (.operators (.constant name.lexeme (some name.position)))
  | argument {name opening : Token} : Turns (.arguments name opening) (.call (some (.argument name opening [])))
  | operand {value : Expr} {op : UnaryOp} : Turns (.returned value (some (.operand op))) (.operators (.unary op value))
  | rightOperand {value left : Expr} {op : BinaryOp} :
      Turns (.returned value (some (.rightOperand op left))) (.operators (.binary op left value))
  | finish {task : Task} {result : Except ParseFailure Expr} : Turns task (.done result)

/-! ## The account of a task -/

namespace Task

/-- What a task adds to the consumed tokens: nothing while a call that is to be opened has not been paid for. -/
def settled : Task → Nat
  | .call _ | .arguments .. => 0
  | _ => 1

/-- A call is about to be opened. -/
def opens : Task → Bool
  | .call _ => true
  | _ => false

theorem settled_add_opens_le (task : Task) : task.settled + task.opens.toNat ≤ 1 := by
  cases task <;> simp [settled, opens]

end Task

namespace Descent

/-- The moments before and after a step. -/
inductive Moved : Descent → Descent → Prop
  | consume {t : Token} {task task' : Task} {calls : List (Option Level)} {depth : Nat} {c after : Cursor} :
      after.consumed = t :: c.consumed → Consumes t task task' →
      Moved ⟨task, calls, depth, c⟩ ⟨task', calls, depth, after⟩
  | turn {task task' : Task} {calls : List (Option Level)} {depth : Nat} {c after : Cursor} :
      after.consumed = c.consumed → Turns task task' → Moved ⟨task, calls, depth, c⟩ ⟨task', calls, depth, after⟩
  | opened {purpose : Option Level} {calls : List (Option Level)} {depth : Nat} {c after : Cursor} :
      after.consumed = c.consumed →
      Moved ⟨.call purpose, calls, depth, c⟩ ⟨.primary, purpose :: calls, depth + 1, after⟩
  | returned {value : Expr} {purpose : Option Level} {calls : List (Option Level)} {depth : Nat} {c after : Cursor} :
      after.consumed = c.consumed →
      Moved ⟨.operators value, purpose :: calls, depth, c⟩ ⟨.returned value purpose, calls, depth - 1, after⟩

variable {limit : Option Nat} {source : Source} {d d' : Descent} {t : Token} {go : Token → Descent → Descent}
  {calls : List (Option Level)} {depth : Nat} {c after : Cursor}

theorem Moved.of_consumed (h : Moved { d with cursor := after } d') (hc : after.consumed = d.cursor.consumed) :
    Moved d d' := by
  obtain ⟨task, calls, depth, c⟩ := d
  cases h with
  | consume hafter hconsumes => exact .consume (hafter.trans (congrArg _ hc)) hconsumes
  | turn hafter hturns => exact .turn (hafter.trans hc) hturns
  | opened hafter => exact .opened (hafter.trans hc)
  | returned hafter => exact .returned (hafter.trans hc)

/-- A step that looks at the next token may be taken to have it ahead already. -/
theorem moved_peeking (hgo : ∀ t c, c.ahead = some t → Moved { d with cursor := c } (go t { d with cursor := c })) :
    Moved d (d.peeking go) := by
  have hconsumed := Cursor.consumed_peek d.cursor
  rcases hpeek : d.cursor.peek with ⟨e | t, after⟩
  · rw [hpeek] at hconsumed
    rw [peeking, hpeek]
    exact .turn hconsumed .finish
  · rw [hpeek] at hconsumed
    rw [peeking, hpeek]
    exact (hgo t after (Cursor.ahead_of_peek hpeek)).of_consumed hconsumed

/-- A step that reads the next token consumes it, unless it is an end mark. -/
theorem moved_advancing (hend : ∀ t c, t.isEnd = true → Moved { d with cursor := c } (go t { d with cursor := c }))
    (hgo : ∀ t c, Moved { d with cursor := c } (go t { d with cursor := c.consume t })) : Moved d (d.advancing go) := by
  rw [advancing_eq_peeking]
  refine moved_peeking fun t c hahead => ?_
  cases he : t.isEnd with
  | true => exact hend t c he
  | false => exact hgo t c

/-- A step that consumes the next token if it is of one kind, and else only looks at it. -/
theorem moved_peeking_if {kind : TokenKind} {no : Token → Descent → Descent} (hkind : kind ≠ .exprEnd)
    (hgo : ∀ t c, t.kind = kind → Moved { d with cursor := c } (go t { d with cursor := c.consume t }))
    (hno : ∀ t c, Moved { d with cursor := c } (no t { d with cursor := c })) :
    Moved d (d.peeking fun t d => if t.kind = kind then d.advancing go else no t d) := by
  refine moved_peeking fun t c hahead => ?_
  by_cases hk : t.kind = kind
  · rw [if_pos hk, advancing_of_ahead hahead (Token.isEnd_eq_false (hk ▸ hkind))]
    exact hgo t c hk
  · rw [if_neg hk]
    exact hno t c

theorem moved_primary : Moved ⟨.primary, calls, depth, c⟩ (step limit ⟨.primary, calls, depth, c⟩) := by
  refine moved_advancing (fun t c he => ?_) fun t c => ?_
  · simp only [readPrimary, Token.kind_of_isEnd he]
    exact .turn rfl .finish
  · unfold readPrimary
    split
    · split
      · exact .consume rfl .number
      · exact .consume rfl .fault
    · exact .consume rfl .name
    · rename_i hk
      exact .consume rfl (.group hk)
    · exact .consume rfl .fault
    · split
      · rename_i hop
        exact .consume rfl (.leading hop)
      · exact .consume rfl .fault

theorem moved_close {value result : Expr} {opening : Token} {inCall : Bool} {purpose : Option Level}
    (h : ∀ t, Consumes t (.returned value purpose) (.operators result)) :
    Moved ⟨.returned value purpose, calls, depth, c⟩
      (advancing ⟨.returned value purpose, calls, depth, c⟩ (close opening inCall result)) := by
  refine moved_advancing (fun t c he => ?_) fun t c => ?_
  · have hk : t.kind ≠ .bracketClose := by
      rw [Token.kind_of_isEnd he]
      decide
    rw [close, if_neg hk, if_pos he]
    exact .turn rfl .finish
  · unfold close
    split
    · exact .consume rfl (h t)
    · split <;> exact .consume rfl .fault

theorem moved_operators {value : Expr} {purpose : Option Level} :
    Moved ⟨.operators value, purpose :: calls, depth, c⟩
      (step limit ⟨.operators value, purpose :: calls, depth, c⟩) := by
  simp only [step]
  refine moved_peeking fun t c hahead => ?_
  unfold readOperator
  split
  · rename_i op htaken
    rw [advancing_of_ahead hahead (Token.isEnd_eq_false_of_trailing (Option.filter_eq_some_iff.1 htaken).1)]
    exact .consume rfl .unary
  · rename_i op htaken
    have htrailing := (Option.filter_eq_some_iff.1 htaken).1
    rw [advancing_of_ahead hahead (Token.isEnd_eq_false_of_trailing htrailing)]
    exact .consume rfl (.binary htrailing)
  · exact .returned rfl

theorem moved_returned {value : Expr} {purpose : Option Level} :
    Moved ⟨.returned value purpose, calls, depth, c⟩ (step limit ⟨.returned value purpose, calls, depth, c⟩) := by
  cases purpose with
  | none =>
    simp only [step, give]
    refine moved_peeking fun t c _ => ?_
    split <;> exact .turn rfl .finish
  | some level =>
    cases level with
    | group opening => exact moved_close fun _ => .closeGroup
    | argument name opening before =>
      simp only [step, give]
      exact moved_peeking_if (by decide) (fun t c hk => .consume rfl (.comma hk))
        fun t c => moved_close fun _ => .closeCall
    | operand op => exact .turn rfl .operand
    | rightOperand op left => exact .turn rfl .rightOperand

/-- **What a step can be.** -/
theorem moved_step (h : Consistent limit d) : Moved d (d.step limit) := by
  obtain ⟨task, calls, depth, c⟩ := d
  cases task with
  | call purpose =>
    unfold step
    dsimp only
    split
    · exact moved_peeking fun t c _ => .turn rfl .finish
    · exact .opened rfl
  | primary => exact moved_primary
  | behindName name =>
    simp only [step]
    exact moved_peeking_if (by decide) (fun t c hk => .consume rfl (.callBracket hk)) fun t c => .turn rfl .constant
  | arguments name opening =>
    simp only [step]
    exact moved_peeking_if (by decide) (fun t c _ => .consume rfl .emptyCall) fun t c => .turn rfl .argument
  | operators value =>
    obtain ⟨ls, rfl⟩ : ∃ ls, calls = chain ls := h.shaped
    cases hcalls : chain ls with
    | nil => exact absurd hcalls (by simp [chain])
    | cons purpose outer => exact moved_operators
  | returned value purpose => exact moved_returned
  | done result => exact .turn rfl .finish

/-! ## What a call is opened by -/

/-- A call for a level is opened by the last consumed token. -/
def Grounded (d : Descent) : Prop :=
  match d.task with
  | .call (some level) => ∃ t earlier, d.cursor.consumed = t :: earlier ∧ level.OpenedBy t
  | .arguments _ opening => opening.kind = .bracketOpen ∧ ∃ earlier, d.cursor.consumed = opening :: earlier
  | _ => True

theorem Moved.grounded (h : Moved d d') (hd : d.Grounded) : d'.Grounded := by
  cases h with
  | consume hafter hconsumes =>
    cases hconsumes with
    | group hk => exact ⟨_, _, hafter, rfl, hk⟩
    | leading hop => exact ⟨_, _, hafter, hop⟩
    | callBracket hk => exact ⟨hk, _, hafter⟩
    | binary hop => exact ⟨_, _, hafter, hop⟩
    | comma hk => exact ⟨_, _, hafter, hk⟩
    | _ => trivial
  | turn hafter hturns =>
    cases hturns with
    | argument =>
      obtain ⟨hk, earlier, hconsumed⟩ := hd
      exact ⟨_, earlier, hafter.trans hconsumed, rfl, hk⟩
    | _ => trivial
  | opened => trivial
  | returned => trivial

theorem grounded_moment (limit : Option Nat) (source : Source) : ∀ k, (moment limit source k).Grounded
  | 0 => trivial
  | k + 1 => (moved_step (moment_consistent limit source k).1).grounded (grounded_moment limit source k)

/-- Only the first call is made for the whole expression. -/
theorem Moved.task_ne (h : Moved d d') : d'.task ≠ .call none := by
  cases h with
  | consume _ hconsumes => cases hconsumes <;> nofun
  | turn _ hturns => cases hturns <;> nofun
  | opened => nofun
  | returned => nofun

/-! ## The account -/

def balance (d : Descent) : Nat := d.cursor.consumed.length + d.task.settled

/-- **A call that is opened raises the balance, and no step lowers it.** -/
theorem Moved.balance_le (h : Moved d d') : d.balance + d.task.opens.toNat ≤ d'.balance := by
  have hone := d.task.settled_add_opens_le
  unfold balance
  cases h with
  | consume hafter hconsumes =>
    simp only [hafter, List.length_cons] at hone ⊢
    omega
  | turn hafter hturns =>
    simp only [hafter] at hone ⊢
    cases hturns with
    | finish => simp only [Task.settled] at hone ⊢; omega
    | _ => simp [Task.settled, Task.opens]
  | opened hafter => simp [hafter, Task.settled, Task.opens]
  | returned hafter => simp [hafter, Task.settled, Task.opens]

/-- How many calls have been opened before a moment. -/
def opened (limit : Option Nat) (source : Source) (k : Nat) : Nat :=
  (List.range k).countP fun j => (moment limit source j).task.opens

theorem opened_succ (limit : Option Nat) (source : Source) (k : Nat) :
    opened limit source (k + 1) = opened limit source k + (moment limit source k).task.opens.toNat := by
  rw [opened, opened, List.range_succ, List.countP_append, List.countP_singleton]
  cases (moment limit source k).task.opens <;> rfl

theorem balance_step (limit : Option Nat) (source : Source) (k : Nat) :
    (moment limit source k).balance + (moment limit source k).task.opens.toNat ≤
      (moment limit source (k + 1)).balance :=
  (moved_step (moment_consistent limit source k).1).balance_le

theorem opened_le_balance (limit : Option Nat) (source : Source) : ∀ k,
    opened limit source k ≤ (moment limit source k).balance
  | 0 => Nat.zero_le _
  | k + 1 => by
    rw [opened_succ]
    exact Nat.le_trans (Nat.add_le_add_right (opened_le_balance limit source k) _) (balance_step limit source k)

theorem balance_mono (limit : Option Nat) (source : Source) (k : Nat) : ∀ i,
    (moment limit source k).balance ≤ (moment limit source (k + i)).balance
  | 0 => Nat.le_refl _
  | i + 1 => Nat.le_trans (balance_mono limit source k i)
      (Nat.le_trans (Nat.le_add_right _ _) (balance_step limit source (k + i)))

theorem balance_of_call {purpose : Option Level} (h : d.task = .call purpose) :
    d.balance = d.cursor.consumed.length := by
  rw [balance, h]; rfl

/-- **Between two calls a token is consumed.** -/
theorem consumed_lt_of_calls {j k : Nat} {p q : Option Level} (hjk : j < k)
    (hp : (moment limit source j).task = .call p) (hq : (moment limit source k).task = .call q) :
    (moment limit source j).cursor.consumed.length < (moment limit source k).cursor.consumed.length := by
  obtain ⟨i, rfl⟩ := Nat.exists_eq_add_of_lt hjk
  have hstep := balance_step limit source j
  have hmono := balance_mono limit source (j + 1) i
  rw [show (moment limit source j).task.opens.toNat = 1 by rw [hp]; rfl, balance_of_call hp] at hstep
  rw [Nat.add_right_comm] at hmono
  rw [balance_of_call hq] at hmono
  omega

/-! ## The tokens behind the cursor -/

theorem standsIn_moment (limit : Option Nat) (source : Source) : ∀ k,
    ∃ reported, StandsIn source reported (moment limit source k).cursor
  | 0 => ⟨false, Cursor.standsIn_ofSource source⟩
  | k + 1 => by
    obtain ⟨reported, hstands⟩ := standsIn_moment limit source k
    rcases cursor_step limit (moment limit source k) with ⟨-, hcursor⟩ | ⟨-, hcursor⟩ | ⟨-, t, hahead, he, hcursor⟩
    · exact ⟨reported, hcursor ▸ hstands⟩
    · exact ⟨_, hcursor ▸ hstands.peek⟩
    · exact ⟨_, hcursor ▸ hstands.peek.consume hahead he⟩

theorem opened_le (limit : Option Nat) (source : Source) (k : Nat) :
    opened limit source k ≤ source.tokens.length + 1 := by
  obtain ⟨reported, hstands⟩ := standsIn_moment limit source k
  have hsettled := (moment limit source k).task.settled_add_opens_le
  have hlength := hstands.length_le
  have hopened := opened_le_balance limit source k
  rw [balance] at hopened
  omega

/-! ## The calls that are active -/

theorem Moved.length_calls_le (h : Moved d d') : d'.calls.length ≤ d.calls.length + d.task.opens.toNat := by
  cases h with
  | consume => exact Nat.le_add_right _ _
  | turn => exact Nat.le_add_right _ _
  | opened => exact Nat.le_refl _
  | returned => exact Nat.le_add_right_of_le (Nat.le_succ _)

theorem length_calls_le_opened (limit : Option Nat) (source : Source) : ∀ k,
    (moment limit source k).calls.length ≤ opened limit source k
  | 0 => Nat.le_refl _
  | k + 1 => by
    rw [opened_succ]
    have hstep : (moment limit source (k + 1)).calls.length ≤
      (moment limit source k).calls.length + (moment limit source k).task.opens.toNat :=
      (moved_step (moment_consistent limit source k).1).length_calls_le
    exact Nat.le_trans hstep (Nat.add_le_add_right (length_calls_le_opened limit source k) _)

/-! ## The end -/

theorem steps_le (source : Source) : steps source ≤ 4 * source.tokens.length + 4 := by
  have hremaining : (Cursor.ofSource source).remaining ≤ source.tokens.length := List.countP_le_length
  show 4 * (Cursor.ofSource source).remaining + 2 * 0 + 4 ≤ _
  omega

/-- After so many steps the descent has ended. -/
theorem task_of_steps_le (limit : Option Nat) (source : Source) {k : Nat} (h : 4 * source.tokens.length + 4 ≤ k) :
    (moment limit source k).task = .done (parseWithin limit source) := by
  obtain ⟨j, rfl⟩ := Nat.exists_eq_add_of_le (Nat.le_trans (steps_le source) h)
  exact moment_of_done (task_steps limit source) j

/-- A limit that allows for one level more than there are tokens makes no difference. -/
theorem parseWithin_of_le {n : Nat} (h : source.tokens.length + 1 ≤ n) :
    parseWithin (some n) source = parseWithin none source := by
  have hcalls : ∀ j, (moment none source j).calls.length ≤ n := fun j =>
    Nat.le_trans (length_calls_le_opened none source j) (Nat.le_trans (opened_le none source j) h)
  have hdone : (moment (some n) source (steps source)).task = .done (parseWithin none source) := by
    rw [moment_some (steps source) fun j _ => hcalls j]
    exact task_steps none source
  exact (result_eq hdone).symm

/-- **A turn of the loop behind a value** consumes a token, or it is the last one and the call returns. -/
theorem operators_turn {value : Expr} (h : Moved d d') (htask : d.task = .operators value) :
    (∃ t, d'.cursor.consumed = t :: d.cursor.consumed) ∨ (∃ purpose, d'.task = .returned value purpose) ∨
      ∃ result, d'.task = .done result := by
  cases h with
  | consume hafter _ => exact .inl ⟨_, hafter⟩
  | turn _ hturns =>
    cases htask
    cases hturns
    exact .inr (.inr ⟨_, rfl⟩)
  | opened => cases htask
  | returned =>
    cases htask
    exact .inr (.inl ⟨_, rfl⟩)

/-- **A turn of the loop over arguments** consumes a comma behind the argument, or it is the last one and the call with
its arguments is complete. -/
theorem arguments_turn {value : Expr} {name opening : Token} {before : List Expr} (h : Moved d d')
    (htask : d.task = .returned value (some (.argument name opening before))) :
    (∃ comma, comma.kind = .comma ∧ d'.cursor.consumed = comma :: d.cursor.consumed ∧
        d'.task = .call (some (.argument name opening (value :: before)))) ∨
      d'.task = .operators (.call name.lexeme (value :: before).reverse (some name.position)) ∨
      ∃ result, d'.task = .done result := by
  cases h with
  | consume hafter hconsumes =>
    cases htask
    cases hconsumes with
    | comma hk => exact .inl ⟨_, hk, hafter, rfl⟩
    | closeCall => exact .inr (.inl rfl)
    | fault => exact .inr (.inr ⟨_, rfl⟩)
  | turn _ hturns =>
    cases htask
    cases hturns
    exact .inr (.inr ⟨_, rfl⟩)
  | opened => cases htask
  | returned => cases htask

/-- **Without a limit the descent ends**, on every source, and its steps are bounded by the tokens.  Its result is the
one of the parser, for which one more level than tokens is as good as no limit.  The first call is made for the whole
expression, and every other one for a level that is opened by the last consumed token, which is another one for every
call.  A turn of a loop consumes a token or is the last one.  So there are no more calls than tokens and the first
one. -/
theorem unlimited_descent_ends (source : Source) :
    (∀ k, 4 * source.tokens.length + 4 ≤ k → (moment none source k).task = .done (parseWithin none source)) ∧
    (∀ n, source.tokens.length + 1 ≤ n → parseWithin (some n) source = parseWithin none source) ∧
    (∀ k, (moment none source k).cursor.consumed.reverse <+: beforeEnd source.tokens) ∧
    (∀ k purpose, (moment none source k).task = .call purpose →
      k = 0 ∧ purpose = none ∨ ∃ level t earlier, purpose = some level ∧
        (moment none source k).cursor.consumed = t :: earlier ∧ level.OpenedBy t) ∧
    (∀ j k p q, j < k → (moment none source j).task = .call p → (moment none source k).task = .call q →
      (moment none source j).cursor.consumed.length < (moment none source k).cursor.consumed.length) ∧
    (∀ k value, (moment none source k).task = .operators value →
      (∃ t, (moment none source (k + 1)).cursor.consumed = t :: (moment none source k).cursor.consumed) ∨
        (∃ purpose, (moment none source (k + 1)).task = .returned value purpose) ∨
        ∃ result, (moment none source (k + 1)).task = .done result) ∧
    (∀ k value name opening before,
      (moment none source k).task = .returned value (some (.argument name opening before)) →
      (∃ comma, comma.kind = .comma ∧
          (moment none source (k + 1)).cursor.consumed = comma :: (moment none source k).cursor.consumed ∧
          (moment none source (k + 1)).task = .call (some (.argument name opening (value :: before)))) ∨
        (moment none source (k + 1)).task =
          .operators (.call name.lexeme (value :: before).reverse (some name.position)) ∨
        ∃ result, (moment none source (k + 1)).task = .done result) ∧
    ∀ k, opened none source k ≤ source.tokens.length + 1 := by
  have hmoved (k : Nat) : Moved (moment none source k) (moment none source (k + 1)) :=
    moved_step (moment_consistent none source k).1
  refine ⟨fun k => task_of_steps_le none source, fun n => parseWithin_of_le, fun k => ?_, fun k purpose hcall => ?_,
    fun j k p q => consumed_lt_of_calls, fun k value => operators_turn (hmoved k),
    fun k value name opening before => arguments_turn (hmoved k), opened_le none source⟩
  · obtain ⟨reported, hstands⟩ := standsIn_moment none source k
    exact hstands.front
  · cases purpose with
    | some level =>
      have hgrounded := grounded_moment none source k
      rw [Grounded, hcall] at hgrounded
      obtain ⟨t, earlier, hconsumed, hopened⟩ := hgrounded
      exact .inr ⟨level, t, earlier, rfl, hconsumed, hopened⟩
    | none =>
      cases k with
      | zero => exact .inl ⟨rfl, rfl⟩
      | succ k => exact absurd hcall (hmoved k).task_ne

end Descent
end Calculator
