import Calculator.Proofs.Expr.Descent
/-!
# Steps that look at a token

A step of the descent either does not look at its source at all (`Descent.step_of_not_looks`), or it is done with a
token that is ahead of the cursor: it comes to a fault when it fetches this token (`Descent.step_of_fault`), or it goes
on as if the token had been ahead before (`Descent.step_of_peek`).  With a token ahead, what is unread does not matter:
the token stays ahead, or it is consumed and is no end mark (`Descent.settles_step`).  So a step leaves its cursor as it
is, looks at the next item, or consumes it as well (`Descent.cursor_step`).
-/
namespace Calculator

/-! ## Cursors -/

namespace Cursor

/-- The tokens that have been looked at, in order. -/
def seen (c : Cursor) : List Token := c.consumed.reverse ++ c.ahead.toList

/-- The token that is fetched, and logged, when the next item is looked at.  One that has been looked at already is not
fetched again. -/
def fetched (c : Cursor) : List Token :=
  match c.ahead, c.peek.1 with
  | none, .ok t => [t]
  | _, _ => []

def withUnread (c : Cursor) (unread : Source) : Cursor := { c with unread := unread }

variable {c : Cursor} {t : Token}

theorem seen_of_ahead (h : c.ahead = some t) : (c.consume t).seen = c.seen := by
  rw [seen, seen, h, consume, List.reverse_cons, Option.toList_none, List.append_nil]
  rfl

theorem seen_peek (c : Cursor) : c.peek.2.seen = c.seen ++ c.fetched := by
  obtain ⟨consumed, ahead, ⟨ts, failure⟩⟩ := c
  cases ahead with
  | some t => exact (List.append_nil _).symm
  | none =>
    cases ts with
    | cons t ts => simp [peek, seen, fetched]
    | nil => cases failure <;> simp [peek, seen, fetched]

theorem peek_of_unread {ts : List Token} {failure : Option ScanError} (h : c.ahead = none)
    (hunread : c.unread = ⟨t :: ts, failure⟩) :
    c.peek = (.ok t, { c with ahead := some t, unread := ⟨ts, failure⟩ }) := by
  simp only [peek, h, hunread]

theorem peek_of_fault {e : ScanError} (h : c.ahead = none) (hunread : c.unread = ⟨[], some e⟩) :
    c.peek = (.error e, { c with unread := ⟨[], none⟩ }) := by
  simp only [peek, h, hunread]

theorem ahead_of_peek {after : Cursor} (h : c.peek = (.ok t, after)) : after.ahead = some t := by
  obtain ⟨consumed, ahead, ⟨ts, failure⟩⟩ := c
  cases ahead with
  | some t =>
    cases h
    rfl
  | none =>
    cases ts with
    | cons t ts =>
      cases h
      rfl
    | nil =>
      cases failure with
      | some e => cases h
      | none =>
        cases h
        rfl

theorem consumed_peek (c : Cursor) : c.peek.2.consumed = c.consumed := by
  obtain ⟨consumed, ahead, ⟨ts, failure⟩⟩ := c
  cases ahead with
  | some t => rfl
  | none =>
    cases ts with
    | cons t ts => rfl
    | nil => cases failure <;> rfl

end Cursor

/-! ## Steps -/

namespace Descent

variable {limit : Option Nat} {d : Descent} {t : Token} {go : Token → Descent → Descent}

def withUnread (d : Descent) (unread : Source) : Descent := { d with cursor := d.cursor.withUnread unread }

/-- The next step looks at the next item. -/
def looks (limit : Option Nat) (d : Descent) : Bool :=
  match d.task with
  | .call _ => (limit.filter (· ≤ d.depth)).isSome
  | .returned _ (some (.operand _)) | .returned _ (some (.rightOperand ..)) | .done _ => false
  | _ => true

/-- What a step logs. -/
def fetched (limit : Option Nat) (d : Descent) : List Token := if d.looks limit then d.cursor.fetched else []

/-- A step that does not look at the next item does not depend on the cursor. -/
theorem step_of_not_looks (h : d.looks limit = false) : ∃ task calls depth, ∀ c : Cursor,
    ({ d with cursor := c } : Descent).step limit = ⟨task, calls, depth, c⟩ := by
  obtain ⟨task, calls, depth, cursor⟩ := d
  cases task with
  | call purpose =>
    have hlimit : limit.filter (· ≤ depth) = none := Option.isSome_eq_false_iff.1 h |> Option.isNone_iff_eq_none.1
    exact ⟨.primary, purpose :: calls, depth + 1, fun c => by simp only [step, hlimit]⟩
  | primary | behindName | arguments | operators => cases h
  | returned value purpose =>
    cases purpose with
    | none => cases h
    | some level =>
      cases level with
      | group | argument => cases h
      | operand op => exact ⟨_, _, _, fun c => rfl⟩
      | rightOperand op left => exact ⟨_, _, _, fun c => rfl⟩
  | done result => exact ⟨_, _, _, fun c => rfl⟩

theorem peeking_of_ahead (h : d.cursor.ahead = some t) : d.peeking go = go t d := by
  simp [peeking, Cursor.peek, h]

theorem peeking_of_peek {after : Cursor} (h : d.cursor.peek = (.ok t, after)) :
    d.peeking go = ({ d with cursor := after } : Descent).peeking go := by
  rw [peeking_of_ahead (d := { d with cursor := after }) (Cursor.ahead_of_peek h), peeking, h]

/-- A step that looks at the next item is done with one that looks at all. -/
theorem step_of_looks (h : d.looks limit = true) : ∃ go : Token → Descent → Descent, ∀ c : Cursor,
    ({ d with cursor := c } : Descent).step limit = ({ d with cursor := c } : Descent).peeking go := by
  obtain ⟨task, calls, depth, cursor⟩ := d
  cases task with
  | call purpose =>
    obtain ⟨n, hlimit⟩ := Option.isSome_iff_exists.1 (show (limit.filter (· ≤ depth)).isSome = true from h)
    exact ⟨_, fun c => by simp only [step, hlimit]; rfl⟩
  | primary => exact ⟨_, fun c => by simp only [step, advancing_eq_peeking]; rfl⟩
  | behindName name => exact ⟨_, fun c => by simp only [step]; rfl⟩
  | arguments name opening => exact ⟨_, fun c => by simp only [step]; rfl⟩
  | operators value => exact ⟨_, fun c => by simp only [step]; rfl⟩
  | returned value purpose =>
    cases purpose with
    | none => exact ⟨_, fun c => by simp only [step, give]; rfl⟩
    | some level =>
      cases level with
      | group opening => exact ⟨_, fun c => by simp only [step, give, advancing_eq_peeking]; rfl⟩
      | argument name opening before => exact ⟨_, fun c => by simp only [step, give]; rfl⟩
      | operand | rightOperand => cases h
  | done result => cases h

theorem step_of_peek {after : Cursor} (h : d.looks limit = true) (hpeek : d.cursor.peek = (.ok t, after)) :
    d.step limit = ({ d with cursor := after } : Descent).step limit := by
  obtain ⟨go, hgo⟩ := step_of_looks h
  rw [hgo after]
  exact (hgo d.cursor).trans (peeking_of_peek hpeek)

/-- A step that comes to a fault ends with it. -/
theorem step_of_fault {e : ScanError} {after : Cursor} (h : d.looks limit = true)
    (hpeek : d.cursor.peek = (.error e, after)) :
    d.step limit = { d with task := .done (.error (.scan e)), cursor := after } := by
  obtain ⟨go, hgo⟩ := step_of_looks h
  refine (hgo d.cursor).trans ?_
  rw [peeking, hpeek]

/-! ### Steps with a token ahead -/

/-- What a step makes of a descent, whatever is unread: the token ahead stays there, or it is consumed and is no end
mark. -/
def Settles (t : Token) (d : Descent) (f : Descent → Descent) : Prop :=
  ∃ task calls depth cursor, (cursor = d.cursor ∨ t.isEnd = false ∧ cursor = d.cursor.consume t) ∧
    ∀ unread, f (d.withUnread unread) = ⟨task, calls, depth, cursor.withUnread unread⟩

theorem readPrimary_eq (t : Token) : ∃ task, ∀ d, readPrimary t d = { d with task := task } := by
  unfold readPrimary
  split
  · split <;> exact ⟨_, fun _ => rfl⟩
  all_goals first
    | exact ⟨_, fun _ => rfl⟩
    | split <;> exact ⟨_, fun _ => rfl⟩

theorem close_eq (opening : Token) (inCall : Bool) (value : Expr) (t : Token) :
    ∃ task, ∀ d, close opening inCall value t d = { d with task := task } := by
  unfold close
  split
  · exact ⟨_, fun _ => rfl⟩
  · split <;> exact ⟨_, fun _ => rfl⟩

theorem settles_task (t : Token) (d : Descent) (task : Task) : Settles t d fun d => { d with task := task } :=
  ⟨_, _, _, d.cursor, .inl rfl, fun _ => rfl⟩

theorem settles_peeking (go : Token → Descent → Descent) (h : d.cursor.ahead = some t) (hgo : Settles t d (go t)) :
    Settles t d (·.peeking go) := by
  obtain ⟨task, calls, depth, cursor, hcursor, hgo⟩ := hgo
  refine ⟨task, calls, depth, cursor, hcursor, fun unread => ?_⟩
  rw [← hgo]
  exact peeking_of_ahead h

theorem settles_advancing (h : d.cursor.ahead = some t) (hgo : ∃ task, ∀ d, go t d = { d with task := task }) :
    Settles t d (·.advancing go) := by
  obtain ⟨task, hgo⟩ := hgo
  cases he : t.isEnd with
  | true =>
    refine ⟨task, d.calls, d.depth, d.cursor, .inl rfl, fun unread => ?_⟩
    have hahead : (d.withUnread unread).cursor.ahead = some t := h
    simp only [advancing_of_end hahead he, hgo]
    rfl
  | false =>
    refine ⟨task, d.calls, d.depth, d.cursor.consume t, .inr ⟨he, rfl⟩, fun unread => ?_⟩
    have hahead : (d.withUnread unread).cursor.ahead = some t := h
    simp only [advancing_of_ahead hahead he, hgo]
    rfl

theorem Settles.congr {f g : Descent → Descent} (h : Settles t d f)
    (hfg : ∀ unread, g (d.withUnread unread) = f (d.withUnread unread)) : Settles t d g := by
  obtain ⟨task, calls, depth, cursor, hcursor, hf⟩ := h
  exact ⟨task, calls, depth, cursor, hcursor, fun unread => (hfg unread).trans (hf unread)⟩

/-- A step that consumes the token ahead and turns to a task. -/
theorem settles_consuming (h : d.cursor.ahead = some t) (task : Task) :
    Settles t d (·.advancing fun _ d => { d with task := task }) :=
  settles_advancing h ⟨task, fun _ => rfl⟩

theorem settles_readOperator (h : d.cursor.ahead = some t) (value : Expr) : Settles t d (readOperator value t) := by
  have hleast : ∀ unread, (d.withUnread unread).least = d.least := fun _ => rfl
  cases htaken : t.kind.trailing?.filter fun op => d.least ≤ op.strength with
  | some op =>
    cases op with
    | unary op =>
      refine (settles_consuming h (.operators (.unary op value))).congr fun unread => ?_
      simp only [readOperator, hleast, htaken]
    | binary op =>
      refine (settles_consuming h (.call (some (.rightOperand op value)))).congr fun unread => ?_
      simp only [readOperator, hleast, htaken]
  | none =>
    obtain ⟨task, calls, depth, cursor⟩ := d
    cases calls with
    | nil =>
      refine ⟨task, [], depth, cursor, .inl rfl, fun unread => ?_⟩
      simp only [readOperator, hleast, htaken]
      rfl
    | cons purpose outer =>
      refine ⟨.returned value purpose, outer, depth - 1, cursor, .inl rfl, fun unread => ?_⟩
      simp only [readOperator, hleast, htaken]
      rfl

/-- A step that looks at the token ahead and then does one thing or another. -/
theorem settles_peeking_if (p : Token → Prop) [DecidablePred p] (yes no : Token → Descent → Descent)
    (h : d.cursor.ahead = some t) (hyes : Settles t d (yes t)) (hno : Settles t d (no t)) :
    Settles t d (·.peeking fun t d => if p t then yes t d else no t d) := by
  refine settles_peeking _ h ?_
  by_cases hp : p t
  · exact hyes.congr fun _ => if_pos hp
  · exact hno.congr fun _ => if_neg hp

theorem settles_give (h : d.cursor.ahead = some t) (value : Expr) (purpose : Option Level) :
    Settles t d (give value purpose) := by
  cases purpose with
  | none =>
    exact settles_peeking_if (·.isEnd = true) (fun _ d => { d with task := .done (.ok value) })
      (fun t d => d.fail (atToken .trailing t)) h (settles_task t d _) (settles_task t d _)
  | some level =>
    cases level with
    | group opening => exact settles_advancing h (close_eq opening false value t)
    | argument name opening before =>
      exact settles_peeking_if (·.kind = .comma)
        (fun _ d => d.advancing fun _ d => { d with task := .call (some (.argument name opening (value :: before))) })
        (fun _ d => d.advancing
          (close opening true (.call name.lexeme (value :: before).reverse (some name.position))))
        h (settles_consuming h _) (settles_advancing h (close_eq opening true _ t))
    | operand op => exact settles_task t d (.operators (.unary op value))
    | rightOperand op left => exact settles_task t d (.operators (.binary op left value))

/-- **With a token ahead a step does not depend on what is unread.** -/
theorem settles_step (limit : Option Nat) (h : d.cursor.ahead = some t) : Settles t d (step limit) := by
  obtain ⟨task, calls, depth, c⟩ := d
  cases task with
  | call purpose =>
    have hstep : ∀ unread, step limit (withUnread ⟨.call purpose, calls, depth, c⟩ unread) =
      step limit ⟨.call purpose, calls, depth, c.withUnread unread⟩ := fun _ => rfl
    cases hlimit : limit.filter (· ≤ depth) with
    | none =>
      refine ⟨.primary, purpose :: calls, depth + 1, c, .inl rfl, fun unread => ?_⟩
      rw [hstep]
      simp only [step, hlimit]
    | some n =>
      have hgo := settles_task t ⟨.call purpose, calls, depth, c⟩ (.done (.error (atToken (.tooDeep n) t)))
      refine (settles_peeking (fun t d => d.fail (atToken (.tooDeep n) t)) h hgo).congr fun unread => ?_
      rw [hstep]
      simp only [step, hlimit]
      rfl
  | primary => exact settles_advancing h (readPrimary_eq t)
  | behindName name =>
    exact (settles_peeking_if (·.kind = .bracketOpen)
      (fun _ d => d.advancing fun opening d => { d with task := .arguments name opening })
      (fun _ d => { d with task := .operators (.constant name.lexeme (some name.position)) })
      h (settles_advancing h ⟨.arguments name t, fun _ => rfl⟩) (settles_task t _ _)).congr fun _ => rfl
  | arguments name opening =>
    exact (settles_peeking_if (·.kind = .bracketClose)
      (fun _ d => d.advancing fun _ d => { d with task := .operators (.call name.lexeme [] (some name.position)) })
      (fun _ d => { d with task := .call (some (.argument name opening [])) })
      h (settles_consuming h _) (settles_task t _ _)).congr fun _ => rfl
  | operators value => exact settles_peeking _ h (settles_readOperator h value)
  | returned value purpose => exact settles_give h value purpose
  | done result => exact ⟨.done result, calls, depth, c, .inl rfl, fun _ => rfl⟩

/-- **What a step does to the cursor**: nothing, or it looks at the next item, and it may consume it. -/
theorem cursor_step (limit : Option Nat) (d : Descent) :
    d.looks limit = false ∧ (d.step limit).cursor = d.cursor ∨
    d.looks limit = true ∧ (d.step limit).cursor = d.cursor.peek.2 ∨
    d.looks limit = true ∧ ∃ t, d.cursor.peek.2.ahead = some t ∧ t.isEnd = false ∧
      (d.step limit).cursor = d.cursor.peek.2.consume t := by
  cases hlooks : d.looks limit with
  | false =>
    obtain ⟨task, calls, depth, hstep⟩ := step_of_not_looks hlooks
    have hd : d.step limit = ⟨task, calls, depth, d.cursor⟩ := hstep d.cursor
    exact .inl ⟨rfl, by rw [hd]⟩
  | true =>
    refine .inr ?_
    rcases hpeek : d.cursor.peek with ⟨e | t, after⟩
    · exact .inl ⟨rfl, congrArg Descent.cursor (step_of_fault hlooks hpeek)⟩
    · have hahead := Cursor.ahead_of_peek hpeek
      obtain ⟨task, calls, depth, cursor, hcursor, hstep⟩ :=
        settles_step (d := { d with cursor := after }) limit hahead
      have hsame : (d.step limit).cursor = cursor.withUnread after.unread :=
        congrArg Descent.cursor ((step_of_peek hlooks hpeek).trans (hstep after.unread))
      rcases hcursor with rfl | ⟨he, rfl⟩
      · exact .inl ⟨rfl, hsame⟩
      · exact .inr ⟨rfl, t, hahead, he, hsame⟩

end Descent
end Calculator
