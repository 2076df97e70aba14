import Calculator.Expr.Parse
/-!
# How the parser goes on

What a run does next depends on one token: the one that it reads, or the end mark that is supplied where the tokens run
out (`upNext`).  Two states that treat this token alike go on alike (`run_congr`), and this is why a level may be closed
before the token that closes it is read: the parser with an operand and the parser with the node that the operand
completes cannot be told apart by a token that does not belong to the operand (`run_operand`, `run_rightOperand`).
-/
namespace Calculator

theorem Token.isEnd_eq_false {t : Token} (h : t.kind ≠ .exprEnd) : t.isEnd = false := by
  rw [isEnd]; exact beq_false_of_ne h

theorem Token.kind_of_isEnd {t : Token} (h : t.isEnd = true) : t.kind = .exprEnd := by
  rwa [isEnd, beq_iff_eq] at h

theorem Token.isEnd_eq_false_of_trailing {t : Token} {op : Operation} (h : t.kind.trailing? = some op) :
    t.isEnd = false := by
  refine Token.isEnd_eq_false fun hk => ?_
  rw [hk] at h
  cases h

/-! ## Tokens that start a value -/

theorem startValue_number {t : Token} {x : Binary64} (levels : List Level) (h : t.kind = .number)
    (hx : readNumber? t.lexeme = some x) : startValue levels t = .ok ⟨levels, .value (.literal x)⟩ := by
  simp only [startValue, h, hx]

theorem startValue_identifier {t : Token} (levels : List Level) (h : t.kind = .identifier) :
    startValue levels t = .ok ⟨levels, .name t⟩ := by
  simp only [startValue, h]

theorem startValue_bracketOpen {t : Token} (levels : List Level) (h : t.kind = .bracketOpen) :
    startValue levels t = .ok ⟨.group t :: levels, .nothing⟩ := by
  simp only [startValue, h]

theorem startValue_leading {t : Token} {op : UnaryOp} (levels : List Level) (h : t.kind.leading? = some op) :
    startValue levels t = .ok ⟨.operand op :: levels, .nothing⟩ := by
  cases hk : t.kind <;> rw [hk] at h <;> cases h <;> simp only [startValue, hk, TokenKind.leading?]

/-- **The tokens that start a value**, each with what it starts. -/
theorem startValue_ok {t : Token} {levels : List Level} {next : ParserState} (h : startValue levels t = .ok next) :
    (t.kind = .number ∧ ∃ x, readNumber? t.lexeme = some x ∧ next = ⟨levels, .value (.literal x)⟩) ∨
    (t.kind = .identifier ∧ next = ⟨levels, .name t⟩) ∨
    (t.kind = .bracketOpen ∧ next = ⟨.group t :: levels, .nothing⟩) ∨
    ∃ op, t.kind.leading? = some op ∧ next = ⟨.operand op :: levels, .nothing⟩ := by
  unfold startValue at h
  split at h
  · rename_i hk
    split at h
    · rename_i x hx
      cases h
      exact .inl ⟨hk, x, hx, rfl⟩
    · cases h
  · cases h
    exact .inr (.inl ⟨‹_›, rfl⟩)
  · cases h
    exact .inr (.inr (.inl ⟨‹_›, rfl⟩))
  · split at h
    · rename_i op hop
      cases h
      exact .inr (.inr (.inr ⟨op, hop, rfl⟩))
    · cases h

/-! ## Operators behind a value -/

theorem taken?_eq_some {levels : List Level} {t : Token} {op : Operation} :
    taken? levels t = some op ↔ t.kind.trailing? = some op ∧ leastStrength levels ≤ op.strength := by
  simp [taken?, Option.filter_eq_some_iff]

theorem taken?_eq_none {levels : List Level} {t : Token} :
    taken? levels t = none ↔ ∀ op, t.kind.trailing? = some op → op.strength < leastStrength levels := by
  simp [taken?, Option.filter_eq_none_iff]

theorem taken?_of_no_trailing {levels : List Level} {t : Token} (h : t.kind.trailing? = none) :
    taken? levels t = none := by
  rw [taken?, h]; rfl

theorem stepBehind_taken {t : Token} {op : Operation} {levels : List Level} (value : Expr)
    (h : taken? levels t = some op) : stepBehind t value levels = .ok (applyTrailing op value levels) := by
  cases levels <;> simp only [stepBehind, h]

/-- **A token that is not taken closes the innermost level**, or is no way to close it. -/
theorem stepBehind_not_taken {t : Token} {level : Level} {outer : List Level} (value : Expr) :
    taken? (level :: outer) t = none → stepBehind t value (level :: outer) =
      match level with
      | .group _ =>
        if t.kind = .bracketClose then .ok ⟨outer, .value value⟩ else .error (atToken (.closingExpected false) t)
      | .argument name opening before =>
        match t.kind with
        | .comma => .ok ⟨.argument name opening (value :: before) :: outer, .nothing⟩
        | .bracketClose => .ok ⟨outer, .value (.call name.lexeme (value :: before).reverse (some name.position))⟩
        | _ => .error (atToken (.closingExpected true) t)
      | .operand op => stepBehind t (.unary op value) outer
      | .rightOperand op left => stepBehind t (.binary op left value) outer := by
  intro h
  cases level with
  | argument => cases hk : t.kind <;> simp only [stepBehind, h, hk]
  | group | operand | rightOperand => rw [stepBehind, h]

theorem stepBehind_operand {t : Token} {op : UnaryOp} {outer : List Level} (value : Expr)
    (h : taken? (.operand op :: outer) t = none) :
    stepBehind t value (.operand op :: outer) = stepBehind t (.unary op value) outer :=
  stepBehind_not_taken value h

theorem stepBehind_rightOperand {t : Token} {op : BinaryOp} {left : Expr} {outer : List Level} (value : Expr)
    (h : taken? (.rightOperand op left :: outer) t = none) :
    stepBehind t value (.rightOperand op left :: outer) = stepBehind t (.binary op left value) outer :=
  stepBehind_not_taken value h

theorem stepBehind_group {t opening : Token} {outer : List Level} (value : Expr) (h : t.kind.trailing? = none) :
    stepBehind t value (.group opening :: outer) =
      if t.kind = .bracketClose then .ok ⟨outer, .value value⟩ else .error (atToken (.closingExpected false) t) :=
  stepBehind_not_taken value (taken?_of_no_trailing h)

theorem stepBehind_group_close {t opening : Token} {outer : List Level} (value : Expr) (h : t.kind = .bracketClose) :
    stepBehind t value (.group opening :: outer) = .ok ⟨outer, .value value⟩ := by
  rw [stepBehind_group value (by rw [h]; rfl), if_pos h]

theorem stepBehind_group_other {t opening : Token} {outer : List Level} (value : Expr)
    (h : taken? (.group opening :: outer) t = none) (hclose : t.kind ≠ .bracketClose) :
    stepBehind t value (.group opening :: outer) = .error (atToken (.closingExpected false) t) :=
  (stepBehind_not_taken value h).trans (if_neg hclose)

theorem stepBehind_argument_close {t name opening : Token} {before : List Expr} {outer : List Level} (value : Expr)
    (h : t.kind = .bracketClose) :
    stepBehind t value (.argument name opening before :: outer) =
      .ok ⟨outer, .value (.call name.lexeme (value :: before).reverse (some name.position))⟩ := by
  rw [stepBehind_not_taken value (taken?_of_no_trailing (by rw [h]; rfl))]
  simp only [h]

theorem stepBehind_argument_comma {t name opening : Token} {before : List Expr} {outer : List Level} (value : Expr)
    (h : t.kind = .comma) :
    stepBehind t value (.argument name opening before :: outer) =
      .ok ⟨.argument name opening (value :: before) :: outer, .nothing⟩ := by
  rw [stepBehind_not_taken value (taken?_of_no_trailing (by rw [h]; rfl))]
  simp only [h]

theorem stepBehind_argument_other {t name opening : Token} {before : List Expr} {outer : List Level} (value : Expr)
    (h : taken? (.argument name opening before :: outer) t = none) (hcomma : t.kind ≠ .comma)
    (hclose : t.kind ≠ .bracketClose) :
    stepBehind t value (.argument name opening before :: outer) = .error (atToken (.closingExpected true) t) := by
  refine (stepBehind_not_taken value h).trans ?_
  cases hk : t.kind with
  | comma => exact absurd hk hcomma
  | bracketClose => exact absurd hk hclose
  | _ => rfl

/-! ## The limit -/

/-- Some levels may be open: there is no limit, or they do not exceed it. -/
def Within (limit : Option Nat) (depth : Nat) : Prop := ∀ n, limit = some n → depth ≤ n

theorem within_none (depth : Nat) : Within none depth := fun _ h => by cases h

theorem within_some {n depth : Nat} : Within (some n) depth ↔ depth ≤ n :=
  ⟨fun h => h n rfl, fun h _ e => by cases e; exact h⟩

theorem Within.mono {limit : Option Nat} {d d' : Nat} (h : Within limit d) (hd : d' ≤ d) : Within limit d' :=
  fun n hn => Nat.le_trans hd (h n hn)

namespace ParserState

theorem checkDepth_congr {limit : Option Nat} {s s' : ParserState} {t : Token} (h : s.depthAt t = s'.depthAt t) :
    s.checkDepth limit t = s'.checkDepth limit t := by
  rw [checkDepth, h]; rfl

theorem checkDepth_ok {limit : Option Nat} {s : ParserState} {t : Token} (h : Within limit (s.depthAt t)) :
    s.checkDepth limit t = .ok () := by
  cases limit with
  | none => rfl
  | some n =>
    have hn : ¬ n < s.depthAt t := Nat.not_lt.2 (h n rfl)
    simp [checkDepth, Option.filter, hn]

theorem checkDepth_error {n : Nat} {s : ParserState} {t : Token} (h : n < s.depthAt t) :
    s.checkDepth (some n) t = .error (atToken (.tooDeep n) t) := by
  simp [checkDepth, Option.filter, h]

theorem within_of_checkDepth {limit : Option Nat} {s : ParserState} {t : Token} {u : Unit}
    (h : s.checkDepth limit t = .ok u) : Within limit (s.depthAt t) := by
  rintro n rfl
  refine Nat.not_lt.1 fun hn => ?_
  rw [checkDepth_error hn] at h
  cases h

/-! ## One token -/

/-- The token that a run reads next. -/
def upNext (stop : Int) (ts : List Token) : Token := ts.headD (.endMark stop)

variable {limit : Option Nat} {failure : Option ScanError} {s s' next : ParserState} {stop : Int} {t : Token}
  {ts rest : List Token}

/-- **States that treat the next token alike go on alike.** -/
theorem run_congr (hc : s.checkDepth limit (upNext stop ts) = s'.checkDepth limit (upNext stop ts))
    (hf : s.finish (upNext stop ts) = s'.finish (upNext stop ts))
    (hs : s.step (upNext stop ts) = s'.step (upNext stop ts)) :
    s.run limit failure stop ts = s'.run limit failure stop ts := by
  cases ts with
  | nil =>
    simp only [upNext, List.headD_nil] at hc hf
    simp only [run, hc, hf]
  | cons t rest =>
    simp only [upNext, List.headD_cons] at hc hf hs
    simp only [run, hc, hf, hs]

theorem run_cons_eq (hd : Within limit (s.depthAt t)) (he : t.isEnd = false) :
    s.run limit failure stop (t :: rest) = (s.step t).bind fun next => next.run limit failure t.stop rest := by
  simp only [run, checkDepth_ok hd, he]
  cases s.step t <;> rfl

theorem run_cons (hd : Within limit (s.depthAt t)) (he : t.isEnd = false) (hs : s.step t = .ok next) :
    s.run limit failure stop (t :: rest) = next.run limit failure t.stop rest := by
  rw [run_cons_eq hd he, hs]; rfl

theorem run_cons_error {e : ParseFailure} (hd : Within limit (s.depthAt t)) (he : t.isEnd = false)
    (hs : s.step t = .error e) : s.run limit failure stop (t :: rest) = .error e := by
  rw [run_cons_eq hd he, hs]; rfl

theorem run_nothing {levels : List Level} (hd : Within limit (levels.length + 1)) (he : t.kind ≠ .exprEnd)
    (h : startValue levels t = .ok next) :
    run limit failure ⟨levels, .nothing⟩ stop (t :: rest) = next.run limit failure t.stop rest :=
  run_cons hd (Token.isEnd_eq_false he) h

theorem run_value {levels : List Level} {value : Expr} (hd : Within limit (levels.length + 1)) (he : t.kind ≠ .exprEnd)
    (h : stepBehind t value levels = .ok next) :
    run limit failure ⟨levels, .value value⟩ stop (t :: rest) = next.run limit failure t.stop rest :=
  run_cons hd (Token.isEnd_eq_false he) h

theorem run_name_bracketOpen {levels : List Level} {name : Token} (hd : Within limit (levels.length + 1))
    (h : t.kind = .bracketOpen) :
    run limit failure ⟨levels, .name name⟩ stop (t :: rest) =
      run limit failure ⟨levels, .callOpened name t⟩ t.stop rest :=
  run_cons hd (Token.isEnd_eq_false (by rw [h]; decide)) (by simp only [step, h, if_true])

theorem run_callOpened_close {levels : List Level} {name opening : Token} (hd : Within limit (levels.length + 1))
    (h : t.kind = .bracketClose) :
    run limit failure ⟨levels, .callOpened name opening⟩ stop (t :: rest) =
      run limit failure ⟨levels, .value (.call name.lexeme [] (some name.position))⟩ t.stop rest :=
  run_cons (by simp only [depthAt, h, if_true]; exact hd) (Token.isEnd_eq_false (by rw [h]; decide))
    (by simp only [step, h, if_true])

/-- **What an accepted run did first**: the token was read in few enough levels, and it was no fault. -/
theorem run_cons_ok {tree : Expr} (he : t.isEnd = false) (h : s.run limit failure stop (t :: rest) = .ok tree) :
    Within limit (s.depthAt t) ∧ ∃ next, s.step t = .ok next ∧ next.run limit failure t.stop rest = .ok tree := by
  rw [run] at h
  split at h
  · cases h
  · rename_i u hd
    rw [he] at h
    split at h
    · contradiction
    · split at h
      · cases h
      · rename_i next hs
        exact ⟨within_of_checkDepth hd, next, hs, h⟩

theorem within_of_run {tree : Expr} (h : s.run limit none stop ts = .ok tree) :
    Within limit (s.depthAt (upNext stop ts)) := by
  cases ts with
  | nil =>
    rw [run] at h
    split at h
    · cases h
    · exact within_of_checkDepth ‹_›
  | cons t rest =>
    rw [run] at h
    split at h
    · cases h
    · exact within_of_checkDepth ‹_›

theorem run_nil_ok {tree : Expr} (h : s.run limit none stop [] = .ok tree) : s.finish (.endMark stop) = .ok tree := by
  rw [run] at h
  split at h
  · cases h
  · exact h

/-! ## Levels closed early -/

theorem run_name {levels : List Level} {name : Token} (h : (upNext stop ts).kind ≠ .bracketOpen) :
    run limit failure ⟨levels, .name name⟩ stop ts =
      run limit failure ⟨levels, .value (.constant name.lexeme (some name.position))⟩ stop ts :=
  run_congr rfl rfl (by simp only [step, h, if_false])

/-- The bracket of a call that is not closed at once opens the level of the first argument. -/
theorem run_callOpened {levels : List Level} {name opening : Token} (h : (upNext stop ts).kind ≠ .bracketClose) :
    run limit failure ⟨levels, .callOpened name opening⟩ stop ts =
      run limit failure ⟨.argument name opening [] :: levels, .nothing⟩ stop ts :=
  run_congr (checkDepth_congr (by simp only [depthAt, h, if_false, List.length_cons])) rfl
    (by simp only [step, h, if_false])

/-- **An operand is complete** before a token that is not taken into it. -/
theorem run_operand {op : UnaryOp} {outer : List Level} {value : Expr} (hd : Within limit (outer.length + 2))
    (h : taken? (.operand op :: outer) (upNext stop ts) = none) :
    run limit failure ⟨.operand op :: outer, .value value⟩ stop ts =
      run limit failure ⟨outer, .value (.unary op value)⟩ stop ts :=
  run_congr (by rw [checkDepth_ok (hd.mono (by simp [depthAt])), checkDepth_ok (hd.mono (by simp [depthAt]))]) rfl
    (stepBehind_operand value h)

/-- **A right operand is complete** before a token that is not taken into it. -/
theorem run_rightOperand {op : BinaryOp} {left value : Expr} {outer : List Level}
    (hd : Within limit (outer.length + 2)) (h : taken? (.rightOperand op left :: outer) (upNext stop ts) = none) :
    run limit failure ⟨.rightOperand op left :: outer, .value value⟩ stop ts =
      run limit failure ⟨outer, .value (.binary op left value)⟩ stop ts :=
  run_congr (by rw [checkDepth_ok (hd.mono (by simp [depthAt])), checkDepth_ok (hd.mono (by simp [depthAt]))]) rfl
    (stepBehind_rightOperand value h)

end ParserState
end Calculator
