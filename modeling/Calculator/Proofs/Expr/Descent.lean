import Calculator.Proofs.Expr.Run
/-!
# The descent — the parser as calls that wait for each other

The parser of the library keeps its open levels in a list and reads every token once.  Here the same parser is told as a
recursive descent: reading a value is a call, which has another call read every value inside it and waits, and a counter
beside the calls goes up when a call is opened and down when it returns.  `Descent.step` carries out the smallest steps
of this, each of which looks at no more than one item through the `Cursor`, so every moment of a run is a state.

`Descent.answer` is what the library's parser gives from a moment on.  No step changes it, and every step comes closer
to the end (`Consistent.step`), so the descent ends with the result of the library's parser (`moment_done`).
-/
namespace Calculator

open ParserState

/-! ## Moments -/

/-- What the innermost call is about to do.  What a call is made for, a level or the whole expression, is `none` for the
whole expression. -/
inductive Task where
  /-- A call is about to be opened. -/
  | call (purpose : Option Level)
  /-- The first token of the value is about to be read. -/
  | primary
  | behindName (name : Token)
  | arguments (name opening : Token)
  /-- The operators behind a value are about to be looked for. -/
  | operators (value : Expr)
  /-- A call has returned its value to the one that waits for it. -/
  | returned (value : Expr) (purpose : Option Level)
  | done (result : Except ParseFailure Expr)

structure Descent where
  task : Task
  /-- The calls that are active, the innermost one first, each with what it was made for. -/
  calls : List (Option Level)
  /-- The counter. -/
  depth : Nat
  cursor : Cursor

namespace Descent

def start (source : Source) : Descent := ⟨.call none, [], 0, .ofSource source⟩

def fail (d : Descent) (e : ParseFailure) : Descent := { d with task := .done (.error e) }

def peeking (d : Descent) (go : Token → Descent → Descent) : Descent :=
  match d.cursor.peek with
  | (.error e, after) => { d with task := .done (.error (.scan e)), cursor := after }
  | (.ok t, after) => go t { d with cursor := after }

def advancing (d : Descent) (go : Token → Descent → Descent) : Descent :=
  match d.cursor.advance with
  | (.error e, after) => { d with task := .done (.error (.scan e)), cursor := after }
  | (.ok t, after) => go t { d with cursor := after }

def least (d : Descent) : Nat :=
  match d.calls with
  | some level :: _ => level.leastStrength
  | _ => 0

def readPrimary (t : Token) (d : Descent) : Descent :=
  match t.kind with
  | .number =>
    match readNumber? t.lexeme with
    | some x => { d with task := .operators (.literal x) }
    | none => d.fail (.unreadable t.lexeme)
  | .identifier => { d with task := .behindName t }
  | .bracketOpen => { d with task := .call (some (.group t)) }
  | .exprEnd => d.fail (atToken .unexpectedEnd t)
  | kind =>
    match kind.leading? with
    | some op => { d with task := .call (some (.operand op)) }
    | none => d.fail (atToken .valueExpected t)

/-- A bracket must be closed: `value` is what the innermost call has then. -/
def close (opening : Token) (inCall : Bool) (value : Expr) (t : Token) (d : Descent) : Descent :=
  if t.kind = .bracketClose then { d with task := .operators value }
  else if t.isEnd then d.fail (.grammar ⟨.unclosed, opening.position, t⟩)
  else d.fail (atToken (.closingExpected inCall) t)

/-- The operators behind a value: one that is taken, or the call returns. -/
def readOperator (value : Expr) (t : Token) (d : Descent) : Descent :=
  match t.kind.trailing?.filter fun op => d.least ≤ op.strength with
  | some (.unary op) => d.advancing fun _ d => { d with task := .operators (.unary op value) }
  | some (.binary op) => d.advancing fun _ d => { d with task := .call (some (.rightOperand op value)) }
  | none =>
    match d.calls with
    | [] => d
    | purpose :: outer => { d with task := .returned value purpose, calls := outer, depth := d.depth - 1 }

/-- A value goes to the call that waits for it, or is the whole expression. -/
def give (value : Expr) (purpose : Option Level) (d : Descent) : Descent :=
  match purpose with
  | none =>
    d.peeking fun t d => if t.isEnd then { d with task := .done (.ok value) } else d.fail (atToken .trailing t)
  | some (.group opening) => d.advancing (close opening false value)
  | some (.argument name opening before) =>
    d.peeking fun t d =>
      if t.kind = .comma then
        d.advancing fun _ d => { d with task := .call (some (.argument name opening (value :: before))) }
      else
        d.advancing (close opening true (.call name.lexeme (value :: before).reverse (some name.position)))
  | some (.operand op) => { d with task := .operators (.unary op value) }
  | some (.rightOperand op left) => { d with task := .operators (.binary op left value) }

/-- One step.  A call is opened only while the counter is below the limit, if there is one. -/
def step (limit : Option Nat) (d : Descent) : Descent :=
  match d.task with
  | .call purpose =>
    match limit.filter (· ≤ d.depth) with
    | some limit => d.peeking fun t d => d.fail (atToken (.tooDeep limit) t)
    | none => { d with task := .primary, calls := purpose :: d.calls, depth := d.depth + 1 }
  | .primary => d.advancing readPrimary
  | .behindName name =>
    d.peeking fun t d =>
      if t.kind = .bracketOpen then d.advancing fun opening d => { d with task := .arguments name opening }
      else { d with task := .operators (.constant name.lexeme (some name.position)) }
  | .arguments name opening =>
    d.peeking fun t d =>
      if t.kind = .bracketClose then
        d.advancing fun _ d => { d with task := .operators (.call name.lexeme [] (some name.position)) }
      else { d with task := .call (some (.argument name opening [])) }
  | .operators value => d.peeking (readOperator value)
  | .returned value purpose => d.give value purpose
  | .done _ => d

/-- The moment after some steps. -/
def after (limit : Option Nat) (d : Descent) : Nat → Descent
  | 0 => d
  | k + 1 => (after limit d k).step limit

def moment (limit : Option Nat) (source : Source) (k : Nat) : Descent := after limit (start source) k

end Descent

/-! ## What the library's parser gives from a moment on -/

namespace Cursor

def pending (c : Cursor) : List Token := c.ahead.toList ++ c.unread.tokens

/-- The token that is read next, unless there is a scan error. -/
def upNext (c : Cursor) : Token := ParserState.upNext c.missingEnd.position c.pending

/-- The library's parser, from a state on. -/
def goOn (limit : Option Nat) (c : Cursor) (s : ParserState) : Except ParseFailure Expr :=
  s.run limit c.unread.failure c.missingEnd.position c.pending

def remaining (c : Cursor) : Nat := c.pending.countP (!·.isEnd)

def consume (c : Cursor) (t : Token) : Cursor := { c with consumed := t :: c.consumed, ahead := none }

theorem missingEnd_eq (c : Cursor) : c.missingEnd = .endMark c.missingEnd.position := by
  unfold missingEnd; split <;> rfl

/-- **Looking ahead changes nothing**: a scan error is what the library's parser ends with, and a token that has been
looked at is still the next one. -/
theorem peek_cases (c : Cursor) :
    (∃ e after, c.peek = (.error e, after) ∧ after.remaining = c.remaining ∧
      ∀ limit s, c.goOn limit s = .error (.scan e)) ∨
    ∃ t after, c.peek = (.ok t, after) ∧ after.ahead = some t ∧ after.remaining = c.remaining ∧
      after.upNext = c.upNext ∧ ∀ limit s, after.goOn limit s = c.goOn limit s := by
  obtain ⟨consumed, ahead, ⟨ts, failure⟩⟩ := c
  cases ahead with
  | some t => exact .inr ⟨t, _, rfl, rfl, rfl, rfl, fun _ _ => rfl⟩
  | none =>
    cases ts with
    | cons t ts => exact .inr ⟨t, _, rfl, rfl, rfl, rfl, fun _ _ => rfl⟩
    | nil =>
      cases failure with
      | some e => exact .inl ⟨e, _, rfl, rfl, fun _ _ => rfl⟩
      | none =>
        -- the end mark that is supplied here is the one that the library's parser supplies
        have hend := missingEnd_eq ⟨consumed, none, [], none⟩
        refine .inr ⟨_, _, rfl, rfl, ?_, ?_, fun limit s => ?_⟩
        · simp only [remaining, pending, Option.toList_some, List.append_nil, Option.toList_none]
          rw [hend]; rfl
        · simp only [upNext, pending, Option.toList_some, List.append_nil, Option.toList_none]
          exact hend
        · simp only [goOn, pending, Option.toList_some, List.append_nil, Option.toList_none]
          rw [hend]
          simp only [run, Token.isEnd, Token.endMark, beq_self_eq_true, if_true]

variable {limit : Option Nat} {c : Cursor} {t : Token} {s next : ParserState}

theorem pending_of_ahead (h : c.ahead = some t) : c.pending = t :: c.unread.tokens := by
  rw [pending, h]; rfl

theorem upNext_of_ahead (h : c.ahead = some t) : c.upNext = t := by
  rw [upNext, pending_of_ahead h]; rfl

theorem remaining_consume (h : c.ahead = some t) (he : t.isEnd = false) :
    c.remaining = (c.consume t).remaining + 1 := by
  rw [remaining, pending_of_ahead h, List.countP_cons_of_pos (by rw [he]; rfl)]
  rfl

theorem goOn_step (h : c.ahead = some t) (he : t.isEnd = false) (hd : Within limit (s.depthAt t))
    (hs : s.step t = .ok next) : (c.consume t).goOn limit next = c.goOn limit s := by
  rw [goOn, goOn, pending_of_ahead h, run_cons hd he hs]
  rfl

theorem goOn_error {e : ParseFailure} (h : c.ahead = some t) (he : t.isEnd = false) (hd : Within limit (s.depthAt t))
    (hs : s.step t = .error e) : c.goOn limit s = .error e := by
  rw [goOn, pending_of_ahead h]
  simp [run, checkDepth_ok hd, he, hs]

theorem goOn_finish (h : c.ahead = some t) (he : t.isEnd = true) (hd : Within limit (s.depthAt t)) :
    c.goOn limit s = s.finish t := by
  rw [goOn, pending_of_ahead h]
  simp [run, checkDepth_ok hd, he]

theorem goOn_tooDeep {n : Nat} (h : c.ahead = some t) (hd : n < s.depthAt t) :
    c.goOn (some n) s = .error (atToken (.tooDeep n) t) := by
  rw [goOn, pending_of_ahead h]
  simp only [run, checkDepth_error hd]

end Cursor

namespace Descent

variable {limit : Option Nat} {d : Descent} {c : Cursor} {t : Token} {go : Token → Descent → Descent}

theorem advancing_eq_peeking :
    d.advancing go = d.peeking fun t d => go t (if t.isEnd then d else { d with cursor := d.cursor.consume t }) := by
  unfold advancing peeking Cursor.advance
  split
  · rename_i h
    split at h <;> simp_all
  · rename_i h
    split at h
    · cases h
    · cases h
      simp only [*]
      split <;> rfl

theorem advancing_of_ahead (h : d.cursor.ahead = some t) (he : t.isEnd = false) :
    d.advancing go = go t { d with cursor := d.cursor.consume t } := by
  simp [advancing, Cursor.advance, Cursor.peek, h, he, Cursor.consume]

theorem advancing_of_end (h : d.cursor.ahead = some t) (he : t.isEnd = true) : d.advancing go = go t d := by
  simp [advancing, Cursor.advance, Cursor.peek, h, he]

end Descent

/-! ## What a moment of the descent stands for -/

def Task.weight : Task → Nat
  | .arguments .. => 5
  | .call _ => 4
  | .behindName _ | .returned .. => 2
  | .primary | .operators _ => 1
  | .done _ => 0

namespace Descent

variable {limit : Option Nat} {d : Descent}

def levels (calls : List (Option Level)) : List Level := calls.filterMap id

/-- What the library's parser gives from a moment on. -/
def answer (limit : Option Nat) (d : Descent) : Except ParseFailure Expr :=
  match d.task with
  | .call purpose => d.cursor.goOn limit ⟨levels (purpose :: d.calls), .nothing⟩
  | .primary => d.cursor.goOn limit ⟨levels d.calls, .nothing⟩
  | .behindName name => d.cursor.goOn limit ⟨levels d.calls, .name name⟩
  | .arguments name opening => d.cursor.goOn limit ⟨levels d.calls, .callOpened name opening⟩
  | .operators value => d.cursor.goOn limit ⟨levels d.calls, .value value⟩
  | .returned value purpose => d.cursor.goOn limit ⟨levels (purpose :: d.calls), .value value⟩
  | .done result => result

/-- A bound for the steps that are still to be made. -/
def distance (d : Descent) : Nat := 4 * d.cursor.remaining + 2 * d.calls.length + d.task.weight

/-- The calls that are active inside some levels. -/
def chain (levels : List Level) : List (Option Level) := levels.map some ++ [none]

theorem levels_cons (level : Level) (calls : List (Option Level)) :
    levels (some level :: calls) = level :: levels calls := rfl

theorem levels_chain (ls : List Level) : levels (chain ls) = ls := by
  simp [levels, chain, List.filterMap_append, List.filterMap_map]

theorem eq_of_cons_eq_chain {purpose : Option Level} {calls : List (Option Level)} {level : Level} {outer : List Level}
    (h : purpose :: calls = chain (level :: outer)) : purpose = some level ∧ calls = chain outer :=
  List.cons.inj h

theorem length_chain (ls : List Level) : (chain ls).length = ls.length + 1 := by
  simp [chain]

/-- The calls fit the task. -/
def Shaped (limit : Option Nat) (d : Descent) : Prop :=
  match d.task with
  | .call purpose => ∃ ls, purpose :: d.calls = chain ls
  | .returned _ purpose =>
    (∃ ls, purpose :: d.calls = chain ls ∧ taken? ls d.cursor.upNext = none) ∧ Within limit (d.calls.length + 1)
  | .done (.ok _) => d.calls = []
  | .done (.error _) => True
  | _ => ∃ ls, d.calls = chain ls

/-- What every moment of a descent satisfies. -/
structure Consistent (limit : Option Nat) (d : Descent) : Prop where
  depth_eq : d.depth = d.calls.length
  within : Within limit d.calls.length
  shaped : d.Shaped limit

/-- What a step does. -/
structure Progress (limit : Option Nat) (d d' : Descent) : Prop where
  consistent : Consistent limit d'
  answer_eq : d'.answer limit = d.answer limit
  distance_lt : d'.distance < d.distance

theorem answer_of_error {e : ScanError} (hw : 0 < d.task.weight)
    (h : ∀ s, d.cursor.goOn limit s = .error (.scan e)) : d.answer limit = .error (.scan e) := by
  obtain ⟨task, calls, depth, c⟩ := d
  cases task with
  | done => cases hw
  | _ => exact h _

theorem answer_congr {after : Cursor} (hw : 0 < d.task.weight) (h : ∀ s, after.goOn limit s = d.cursor.goOn limit s) :
    { d with cursor := after }.answer limit = d.answer limit := by
  obtain ⟨task, calls, depth, c⟩ := d
  cases task with
  | done => cases hw
  | _ => exact h _

theorem Consistent.cursor {after : Cursor} (h : Consistent limit d) (hnext : after.upNext = d.cursor.upNext) :
    Consistent limit { d with cursor := after } := by
  obtain ⟨task, calls, depth, c⟩ := d
  refine ⟨h.depth_eq, h.within, ?_⟩
  have hshaped := h.shaped
  cases task with
  | returned value purpose =>
    simp only [Shaped] at hshaped ⊢
    rw [hnext]
    exact hshaped
  | done result => cases result <;> exact hshaped
  | _ => exact hshaped

theorem progress_fail {e : ParseFailure} (h : Consistent limit d) (hw : 0 < d.task.weight)
    (ha : d.answer limit = .error e) : Progress limit d (d.fail e) where
  consistent := ⟨h.depth_eq, h.within, trivial⟩
  answer_eq := ha.symm
  distance_lt := Nat.add_lt_add_left hw _

/-- **A step that looks at the next token** may be taken to have it ahead already. -/
theorem progress_peeking (h : Consistent limit d) (hw : 0 < d.task.weight)
    (hgo : ∀ t c, c.ahead = some t → Consistent limit { d with cursor := c } →
      Progress limit { d with cursor := c } (go t { d with cursor := c })) :
    Progress limit d (d.peeking go) := by
  rcases d.cursor.peek_cases with
    ⟨e, after, hpeek, hremaining, hgoOn⟩ | ⟨t, after, hpeek, hahead, hremaining, hnext, hgoOn⟩
  · rw [peeking, hpeek]
    refine ⟨⟨h.depth_eq, h.within, trivial⟩, (answer_of_error hw (hgoOn limit)).symm, ?_⟩
    simp only [distance, hremaining]
    exact Nat.add_lt_add_left hw _
  · rw [peeking, hpeek]
    obtain ⟨hconsistent, hanswer, hdistance⟩ := hgo t after hahead (h.cursor hnext)
    refine ⟨hconsistent, hanswer.trans (answer_congr hw (hgoOn limit)), ?_⟩
    simp only [distance, hremaining] at hdistance ⊢
    exact hdistance

theorem progress_advancing (h : Consistent limit d) (hw : 0 < d.task.weight)
    (hgo : ∀ t c, c.ahead = some t → Consistent limit { d with cursor := c } →
      Progress limit { d with cursor := c } (advancing { d with cursor := c } go)) :
    Progress limit d (d.advancing go) := by
  rw [advancing_eq_peeking]
  refine progress_peeking h hw fun t c hahead hc => ?_
  have := hgo t c hahead hc
  cases he : t.isEnd with
  | true => rwa [advancing_of_end hahead he] at this
  | false => rwa [advancing_of_ahead hahead he] at this

theorem progress_consume {task : Task} (h : Consistent limit d) (hahead : d.cursor.ahead = some t)
    (he : t.isEnd = false) (hshaped : Shaped limit ⟨task, d.calls, d.depth, d.cursor.consume t⟩)
    (hanswer : answer limit ⟨task, d.calls, d.depth, d.cursor.consume t⟩ = d.answer limit)
    (hweight : task.weight < d.task.weight + 4) :
    Progress limit d ⟨task, d.calls, d.depth, d.cursor.consume t⟩ := by
  refine ⟨⟨h.depth_eq, h.within, hshaped⟩, hanswer, ?_⟩
  simp only [distance, Cursor.remaining_consume hahead he]
  omega

theorem progress_turn {task : Task} (h : Consistent limit d) (hshaped : Shaped limit { d with task := task })
    (hanswer : answer limit { d with task := task } = d.answer limit) (hweight : task.weight < d.task.weight) :
    Progress limit d { d with task := task } :=
  ⟨⟨h.depth_eq, h.within, hshaped⟩, hanswer, Nat.add_lt_add_left hweight _⟩

/-! ## One step for each task -/

variable {calls : List (Option Level)} {depth : Nat} {c : Cursor}

theorem progress_call {purpose : Option Level} (h : Consistent limit ⟨.call purpose, calls, depth, c⟩) :
    Progress limit ⟨.call purpose, calls, depth, c⟩ (step limit ⟨.call purpose, calls, depth, c⟩) := by
  simp only [step]
  split
  · rename_i n hn
    -- the call would be one more than the limit allows
    obtain ⟨rfl, hdepth⟩ := Option.filter_eq_some_iff.1 hn
    have hdepth : n ≤ depth := of_decide_eq_true hdepth
    refine progress_peeking h (Nat.succ_pos _) fun t c hahead hc => progress_fail hc (Nat.succ_pos _) ?_
    obtain ⟨ls, hls⟩ := hc.shaped
    simp only [answer]
    rw [hls, levels_chain]
    refine Cursor.goOn_tooDeep hahead ?_
    have hlength : (purpose :: calls).length = ls.length + 1 := by rw [hls, length_chain]
    have hcalls : depth = calls.length := hc.depth_eq
    simp only [depthAt]
    simp only [List.length_cons] at hlength
    omega
  · rename_i hn
    have hcalls : depth = calls.length := h.depth_eq
    refine ⟨⟨by rw [hcalls]; rfl, ?_, h.shaped⟩, rfl, ?_⟩
    · rintro n rfl
      have hlt := Option.filter_eq_none_iff.1 hn n rfl
      simp only [decide_eq_true_eq] at hlt
      simp only [List.length_cons]
      omega
    · simp only [distance, Task.weight, List.length_cons]
      omega

theorem within_chain {task : Task} {ls : List Level} (h : Consistent limit ⟨task, chain ls, depth, c⟩) :
    Within limit (ls.length + 1) := by
  have := h.within
  rwa [length_chain] at this

theorem progress_primary (h : Consistent limit ⟨.primary, calls, depth, c⟩) :
    Progress limit ⟨.primary, calls, depth, c⟩ (step limit ⟨.primary, calls, depth, c⟩) := by
  simp only [step]
  refine progress_advancing h Nat.one_pos fun t c hahead hc => ?_
  obtain ⟨ls, rfl⟩ : ∃ ls, calls = chain ls := hc.shaped
  have hwithin : Within limit (ls.length + 1) := within_chain hc
  cases he : t.isEnd with
  | true =>
    have hk : t.kind = .exprEnd := Token.kind_of_isEnd he
    rw [advancing_of_end hahead he]
    simp only [readPrimary, hk]
    refine progress_fail hc Nat.one_pos ?_
    simp only [answer, levels_chain]
    exact Cursor.goOn_finish hahead he hwithin
  | false =>
    -- a token that starts a value, and one that does not
    have hstart : ∀ next, startValue ls t = .ok next → (c.consume t).goOn limit next = c.goOn limit ⟨ls, .nothing⟩ :=
      fun next hs => Cursor.goOn_step hahead he hwithin hs
    have hfault : ∀ e, startValue ls t = .error e → .error e = c.goOn limit ⟨ls, .nothing⟩ :=
      fun e hs => (Cursor.goOn_error hahead he hwithin (show ParserState.step ⟨ls, .nothing⟩ t = .error e from hs)).symm
    rw [advancing_of_ahead hahead he, readPrimary]
    split
    · rename_i hk
      split
      · rename_i x hx
        refine progress_consume hc hahead he ⟨ls, rfl⟩ ?_ (by simp [Task.weight])
        simp only [answer, levels_chain]
        exact hstart _ (startValue_number ls hk hx)
      · rename_i hx
        refine progress_consume hc hahead he trivial ?_ (by simp [Task.weight])
        simp only [answer, levels_chain]
        exact hfault _ (by simp only [startValue, hk, hx])
    · rename_i hk
      refine progress_consume hc hahead he ⟨ls, rfl⟩ ?_ (by simp [Task.weight])
      simp only [answer, levels_chain]
      exact hstart _ (startValue_identifier ls hk)
    · rename_i hk
      refine progress_consume hc hahead he ⟨.group t :: ls, rfl⟩ ?_ (by simp [Task.weight])
      simp only [answer, levels_cons, levels_chain]
      exact hstart _ (startValue_bracketOpen ls hk)
    · rename_i hk
      rw [Token.isEnd, hk] at he
      cases he
    · rename_i hnumber hidentifier hopen _
      split
      · rename_i op hop
        refine progress_consume hc hahead he ⟨.operand op :: ls, rfl⟩ ?_ (by simp [Task.weight])
        simp only [answer, levels_cons, levels_chain]
        exact hstart _ (startValue_leading ls hop)
      · rename_i hop
        refine progress_consume hc hahead he trivial ?_ (by simp [Task.weight])
        simp only [answer, levels_chain]
        exact hfault _ (by simp only [startValue, hop])

theorem progress_behindName {name : Token} (h : Consistent limit ⟨.behindName name, calls, depth, c⟩) :
    Progress limit ⟨.behindName name, calls, depth, c⟩ (step limit ⟨.behindName name, calls, depth, c⟩) := by
  simp only [step]
  refine progress_peeking h Nat.two_pos fun t c hahead hc => ?_
  obtain ⟨ls, rfl⟩ : ∃ ls, calls = chain ls := hc.shaped
  by_cases hk : t.kind = .bracketOpen
  · have he : t.isEnd = false := Token.isEnd_eq_false (by rw [hk]; decide)
    rw [if_pos hk, advancing_of_ahead hahead he]
    refine progress_consume hc hahead he ⟨ls, rfl⟩ ?_ (by simp [Task.weight])
    simp only [answer, levels_chain]
    exact Cursor.goOn_step hahead he (within_chain hc) (by simp only [ParserState.step, hk, if_true])
  · rw [if_neg hk]
    refine progress_turn hc ⟨ls, rfl⟩ ?_ (by simp [Task.weight])
    simp only [answer, levels_chain]
    exact (run_name (by rw [← Cursor.upNext, Cursor.upNext_of_ahead hahead]; exact hk)).symm

theorem progress_arguments {name opening : Token} (h : Consistent limit ⟨.arguments name opening, calls, depth, c⟩) :
    Progress limit ⟨.arguments name opening, calls, depth, c⟩
      (step limit ⟨.arguments name opening, calls, depth, c⟩) := by
  simp only [step]
  refine progress_peeking h (Nat.succ_pos _) fun t c hahead hc => ?_
  obtain ⟨ls, rfl⟩ : ∃ ls, calls = chain ls := hc.shaped
  by_cases hk : t.kind = .bracketClose
  · have he : t.isEnd = false := Token.isEnd_eq_false (by rw [hk]; decide)
    rw [if_pos hk, advancing_of_ahead hahead he]
    refine progress_consume hc hahead he ⟨ls, rfl⟩ ?_ (by simp [Task.weight])
    simp only [answer, levels_chain]
    refine Cursor.goOn_step hahead he ?_ (by simp only [ParserState.step, hk, if_true])
    simp only [depthAt, hk, if_true]
    exact within_chain hc
  · rw [if_neg hk]
    refine progress_turn hc ⟨.argument name opening [] :: ls, rfl⟩ ?_ (by simp [Task.weight])
    simp only [answer, levels_cons, levels_chain]
    exact (run_callOpened (by rw [← Cursor.upNext, Cursor.upNext_of_ahead hahead]; exact hk)).symm

theorem least_chain {task : Task} (ls : List Level) : least ⟨task, chain ls, depth, c⟩ = leastStrength ls := by
  cases ls <;> rfl

theorem progress_operators {value : Expr} (h : Consistent limit ⟨.operators value, calls, depth, c⟩) :
    Progress limit ⟨.operators value, calls, depth, c⟩ (step limit ⟨.operators value, calls, depth, c⟩) := by
  simp only [step]
  refine progress_peeking h Nat.one_pos fun t c hahead hc => ?_
  obtain ⟨ls, rfl⟩ : ∃ ls, calls = chain ls := hc.shaped
  have hwithin : Within limit (ls.length + 1) := within_chain hc
  simp only [readOperator, least_chain]
  rw [← taken?]
  cases htaken : taken? ls t with
  | some op =>
    have he : t.isEnd = false := Token.isEnd_eq_false_of_trailing (taken?_eq_some.1 htaken).1
    have hstep : (c.consume t).goOn limit (applyTrailing op value ls) = c.goOn limit ⟨ls, .value value⟩ :=
      Cursor.goOn_step hahead he hwithin (stepBehind_taken value htaken)
    cases op with
    | unary op =>
      dsimp only
      rw [advancing_of_ahead hahead he]
      refine progress_consume hc hahead he ⟨ls, rfl⟩ ?_ (by simp [Task.weight])
      simp only [answer, levels_chain]
      exact hstep
    | binary op =>
      dsimp only
      rw [advancing_of_ahead hahead he]
      refine progress_consume hc hahead he ⟨.rightOperand op value :: ls, rfl⟩ ?_ (by simp [Task.weight])
      simp only [answer, levels_cons, levels_chain]
      exact hstep
  | none =>
    have hnext : taken? ls c.upNext = none := by rw [Cursor.upNext_of_ahead hahead]; exact htaken
    cases hcalls : chain ls with
    | nil => exact absurd hcalls (by simp [chain])
    | cons purpose outer =>
      have hlength : outer.length = ls.length := by
        have := length_chain ls
        rw [hcalls] at this
        exact Nat.succ.inj this
      have hdepth : depth = (chain ls).length := hc.depth_eq
      refine ⟨⟨?_, ?_, ⟨ls, hcalls.symm, hnext⟩, ?_⟩, ?_, ?_⟩
      · simp only [hdepth, length_chain, hlength, Nat.add_sub_cancel]
      · simp only [hlength]
        exact hwithin.mono (Nat.le_succ _)
      · simp only [hlength]
        exact hwithin
      · simp only [answer]
      · simp only [distance, Task.weight, List.length_cons]
        omega

theorem progress_close {value result : Expr} {level : Level} {outer : List Level} {opening : Token} {inCall : Bool}
    (h : Consistent limit ⟨.returned value (some level), chain outer, depth, c⟩) (hahead : c.ahead = some t)
    (hclose : t.kind = .bracketClose → stepBehind t value (level :: outer) = .ok ⟨outer, .value result⟩)
    (hend : finishBehind t value (level :: outer) = .error (.grammar ⟨.unclosed, opening.position, t⟩))
    (hother : t.kind ≠ .bracketClose →
      stepBehind t value (level :: outer) = .error (atToken (.closingExpected inCall) t)) :
    Progress limit ⟨.returned value (some level), chain outer, depth, c⟩
      (advancing ⟨.returned value (some level), chain outer, depth, c⟩ (close opening inCall result)) := by
  have hwithin : Within limit (outer.length + 2) := by
    have := h.shaped.2
    simp only [length_chain] at this
    exact this
  cases he : t.isEnd with
  | true =>
    have hk : t.kind = .exprEnd := Token.kind_of_isEnd he
    rw [advancing_of_end hahead he, close, if_neg (by rw [hk]; decide), if_pos he]
    refine progress_fail h Nat.two_pos ?_
    simp only [answer, levels_cons, levels_chain]
    rw [Cursor.goOn_finish hahead he hwithin]
    exact hend
  | false =>
    rw [advancing_of_ahead hahead he, close]
    by_cases hk : t.kind = .bracketClose
    · rw [if_pos hk]
      refine progress_consume h hahead he ⟨outer, rfl⟩ ?_ (by simp [Task.weight])
      simp only [answer, levels_cons, levels_chain]
      exact Cursor.goOn_step hahead he hwithin (hclose hk)
    · rw [if_neg hk, if_neg (by rw [he]; decide)]
      refine progress_consume h hahead he trivial ?_ (by simp [Task.weight])
      simp only [answer, levels_cons, levels_chain]
      have hs : ParserState.step ⟨level :: outer, .value value⟩ t = .error (atToken (.closingExpected inCall) t) :=
        hother hk
      exact (Cursor.goOn_error hahead he hwithin hs).symm

theorem taken?_returned {value : Expr} {level : Level} {outer : List Level}
    (h : Consistent limit ⟨.returned value (some level), chain outer, depth, c⟩) (hahead : c.ahead = some t) :
    taken? (level :: outer) t = none := by
  obtain ⟨⟨ls, hls, hnext⟩, -⟩ := h.shaped
  obtain rfl : ls = level :: outer := by
    rw [← levels_chain ls, ← hls, levels_cons, levels_chain]
  rwa [Cursor.upNext_of_ahead hahead] at hnext

theorem progress_returned {value : Expr} {purpose : Option Level}
    (h : Consistent limit ⟨.returned value purpose, calls, depth, c⟩) :
    Progress limit ⟨.returned value purpose, calls, depth, c⟩
      (step limit ⟨.returned value purpose, calls, depth, c⟩) := by
  obtain ⟨⟨ls, hls, hnext⟩, hwithin⟩ := h.shaped
  cases ls with
  | nil =>
    cases hls
    simp only [step, give]
    refine progress_peeking h Nat.two_pos fun t c hahead hc => ?_
    have htaken : taken? [] t = none := by
      obtain ⟨⟨ls, hls, hnext⟩, -⟩ := hc.shaped
      cases ls with
      | nil => rwa [Cursor.upNext_of_ahead hahead] at hnext
      | cons level outer => cases hls
    cases he : t.isEnd with
    | true =>
      rw [if_pos rfl]
      refine progress_turn hc rfl ?_ Nat.two_pos
      simp only [answer]
      have hdepth : Within limit (ParserState.depthAt ⟨[], .value value⟩ t) := hwithin
      exact (Cursor.goOn_finish hahead he hdepth).symm
    | false =>
      rw [if_neg Bool.false_ne_true]
      refine progress_fail hc Nat.two_pos ?_
      have hs : ParserState.step ⟨[], .value value⟩ t = .error (atToken .trailing t) := by
        simp only [ParserState.step, stepBehind, htaken]
      simp only [answer]
      exact Cursor.goOn_error hahead he hwithin hs
  | cons level outer =>
    obtain ⟨rfl, rfl⟩ := eq_of_cons_eq_chain hls
    have hdepth : Within limit (outer.length + 2) := by
      simp only [length_chain] at hwithin
      exact hwithin
    simp only [step, give]
    cases level with
    | operand op =>
      refine progress_turn h ⟨outer, rfl⟩ ?_ (by simp [Task.weight])
      simp only [answer, levels_cons, levels_chain]
      exact (run_operand hdepth hnext).symm
    | rightOperand op left =>
      refine progress_turn h ⟨outer, rfl⟩ ?_ (by simp [Task.weight])
      simp only [answer, levels_cons, levels_chain]
      exact (run_rightOperand hdepth hnext).symm
    | group opening =>
      refine progress_advancing h Nat.two_pos fun t c hahead hc => ?_
      have htaken : taken? (.group opening :: outer) t = none := taken?_returned hc hahead
      refine progress_close hc hahead (stepBehind_group_close value) rfl fun hk => ?_
      rw [stepBehind, htaken]
      exact if_neg hk
    | argument name opening before =>
      refine progress_peeking h Nat.two_pos fun t c hahead hc => ?_
      have htaken : taken? (.argument name opening before :: outer) t = none := taken?_returned hc hahead
      by_cases hk : t.kind = .comma
      · have he : t.isEnd = false := Token.isEnd_eq_false (by rw [hk]; decide)
        rw [if_pos hk, advancing_of_ahead hahead he]
        refine progress_consume hc hahead he ⟨.argument name opening (value :: before) :: outer, rfl⟩ ?_
          (by simp [Task.weight])
        simp only [answer, levels_cons, levels_chain]
        exact Cursor.goOn_step hahead he hdepth (stepBehind_argument_comma value hk)
      · rw [if_neg hk]
        refine progress_close hc hahead (stepBehind_argument_close value) rfl fun hclose => ?_
        rw [stepBehind, htaken]
        simp only

/-! ## Whole runs -/

/-- **Every step makes progress**, unless the descent is done. -/
theorem Consistent.step (h : Consistent limit d) (hw : 0 < d.task.weight) : Progress limit d (d.step limit) := by
  obtain ⟨task, calls, depth, c⟩ := d
  cases task with
  | call purpose => exact progress_call h
  | primary => exact progress_primary h
  | behindName name => exact progress_behindName h
  | arguments name opening => exact progress_arguments h
  | operators value => exact progress_operators h
  | returned value purpose => exact progress_returned h
  | done result => cases hw

theorem step_done {result : Except ParseFailure Expr} (h : d.task = .done result) : d.step limit = d := by
  simp only [step, h]

theorem weight_pos_or_done (d : Descent) : 0 < d.task.weight ∨ ∃ result, d.task = .done result := by
  cases h : d.task with
  | done result => exact .inr ⟨result, rfl⟩
  | _ => exact .inl (by simp [Task.weight])

theorem consistent_start (limit : Option Nat) (source : Source) : Consistent limit (start source) :=
  ⟨rfl, fun _ _ => Nat.zero_le _, [], rfl⟩

theorem answer_start (limit : Option Nat) (source : Source) :
    (start source).answer limit = parseWithin limit source := rfl

/-- **The descent is consistent at every moment, and its answer is the one of the library's parser.** -/
theorem moment_consistent (limit : Option Nat) (source : Source) :
    ∀ k, Consistent limit (moment limit source k) ∧ (moment limit source k).answer limit = parseWithin limit source
  | 0 => ⟨consistent_start limit source, answer_start limit source⟩
  | k + 1 => by
    obtain ⟨hc, ha⟩ := moment_consistent limit source k
    show Consistent limit ((moment limit source k).step limit) ∧ ((moment limit source k).step limit).answer limit = _
    rcases weight_pos_or_done (moment limit source k) with hw | ⟨result, hdone⟩
    · have hp := hc.step hw
      exact ⟨hp.consistent, hp.answer_eq.trans ha⟩
    · rw [step_done hdone]
      exact ⟨hc, ha⟩

theorem result_eq {source : Source} {k : Nat} {result : Except ParseFailure Expr}
    (h : (moment limit source k).task = .done result) : result = parseWithin limit source := by
  have ha := (moment_consistent limit source k).2
  simp only [answer, h] at ha
  exact ha

theorem moment_of_done {source : Source} {k : Nat} {result : Except ParseFailure Expr}
    (h : (moment limit source k).task = .done result) :
    ∀ j, (moment limit source (k + j)).task = .done result
  | 0 => h
  | j + 1 => by
    have ih := moment_of_done h j
    show ((moment limit source (k + j)).step limit).task = _
    rw [step_done ih]
    exact ih

theorem exists_done (limit : Option Nat) (source : Source) (k : Nat) :
    ∃ j result, (moment limit source j).task = .done result := by
  rcases weight_pos_or_done (moment limit source k) with hw | ⟨result, hdone⟩
  · exact exists_done limit source (k + 1)
  · exact ⟨k, result, hdone⟩
termination_by (moment limit source k).distance
decreasing_by exact ((moment_consistent limit source k).1.step hw).distance_lt

/-- **The descent ends**, with the result of the library's parser. -/
theorem moment_done (limit : Option Nat) (source : Source) :
    ∃ k, ∀ j, (moment limit source (k + j)).task = .done (parseWithin limit source) := by
  obtain ⟨k, result, hdone⟩ := exists_done limit source 0
  obtain rfl := result_eq hdone
  exact ⟨k, moment_of_done hdone⟩

end Descent
end Calculator
