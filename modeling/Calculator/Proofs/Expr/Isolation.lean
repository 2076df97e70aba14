import Calculator.Proofs.Expr.Context
import Calculator.Proofs.Expr.ReadingOrder
/-!
# Brackets isolate

What stands in a pair of brackets is read as if it stood alone, and what stands around them is read as if any other
expression stood in them.  The first holds because a level above others is never closed by a token that the whole
expression would have taken (`run_above`), and the second because the tree that comes out of the brackets is a hole for
the rest (`ParserState.Context.run_uniform`).

So a row of tokens with brackets in it has one outcome for all expressions in these brackets: a fault, at a token outside
of them, or a tree with a hole (`run_around`).
-/
namespace Calculator

open ParserState

variable {failure : Option ScanError} {s next : ParserState} {stop : Int} {t : Token} {f : ParseFailure} {tree : Expr}

/-! ## Where a fault is noticed -/

theorem stepBehind_error : ∀ (value : Expr) (levels : List Level), stepBehind t value levels = .error f →
    ∃ fault, f = atToken fault t
  | value, [], h => by
    rw [stepBehind] at h
    split at h
    · cases h
    · exact ⟨.trailing, (Except.error.inj h).symm⟩
  | value, level :: outer, h => by
    cases htaken : taken? (level :: outer) t with
    | some op =>
      rw [stepBehind_taken value htaken] at h
      cases h
    | none =>
      rw [stepBehind_not_taken value htaken] at h
      cases level with
      | group opening =>
        simp only at h
        split at h
        · cases h
        · exact ⟨.closingExpected false, (Except.error.inj h).symm⟩
      | argument name opening before =>
        simp only at h
        split at h
        · cases h
        · cases h
        · exact ⟨.closingExpected true, (Except.error.inj h).symm⟩
      | operand op => exact stepBehind_error _ outer h
      | rightOperand op left => exact stepBehind_error _ outer h

theorem startValue_error {levels : List Level} (hread : t.Readable) (h : startValue levels t = .error f) :
    ∃ fault, f = atToken fault t := by
  unfold startValue at h
  split at h
  · obtain ⟨x, hx⟩ := hread ‹_›
    rw [hx] at h
    cases h
  · cases h
  · cases h
  · split at h
    · cases h
    · exact ⟨.valueExpected, (Except.error.inj h).symm⟩

theorem step_error (hread : t.Readable) (h : s.step t = .error f) : ∃ fault, f = atToken fault t := by
  unfold step at h
  split at h
  · exact startValue_error hread h
  · split at h
    · cases h
    · exact stepBehind_error _ _ h
  · split at h
    · cases h
    · exact startValue_error hread h
  · exact stepBehind_error _ _ h

theorem finishBehind_error : ∀ (value : Expr) (levels : List Level), finishBehind t value levels = .error f →
    ∃ position, f = .grammar ⟨.unclosed, position, t⟩
  | _, [], h => by cases h
  | _, .group _ :: _, h | _, .argument .. :: _, h => ⟨_, (Except.error.inj h).symm⟩
  | value, .operand op :: outer, h => finishBehind_error (.unary op value) outer h
  | value, .rightOperand op left :: outer, h => finishBehind_error (.binary op left value) outer h

theorem finish_error (h : s.finish t = .error f) :
    f = atToken .unexpectedEnd t ∨ ∃ position, f = .grammar ⟨.unclosed, position, t⟩ := by
  unfold finish at h
  split at h
  · exact .inl (Except.error.inj h).symm
  · exact .inr (finishBehind_error _ _ h)
  · exact .inl (Except.error.inj h).symm
  · exact .inr (finishBehind_error _ _ h)

/-- A fault in the grammar that is noticed at one of some tokens or at the end. -/
def NoticedIn (ts : List Token) (f : ParseFailure) : Prop :=
  ∃ fault position found, f = .grammar ⟨fault, position, found⟩ ∧ (found ∈ ts ∨ found.isEnd = true)

theorem NoticedIn.mono {ts us : List Token} (h : NoticedIn ts f) (hsub : ts ⊆ us) : NoticedIn us f := by
  obtain ⟨fault, position, found, rfl, hfound⟩ := h
  exact ⟨fault, position, found, rfl, hfound.imp_left fun hmem => hsub hmem⟩

theorem checkDepth_fault {limit : Option Nat} (h : s.checkDepth limit t = .error f) : ∃ fault, f = atToken fault t := by
  unfold checkDepth at h
  split at h
  · exact ⟨_, (Except.error.inj h).symm⟩
  · cases h

/-- `StopsAt limit s t f`: a run that reads the token `t` in the state `s` ends there with the failure `f`. -/
inductive StopsAt (limit : Option Nat) (s : ParserState) (t : Token) (f : ParseFailure) : Prop
  | deep : s.checkDepth limit t = .error f → StopsAt limit s t f
  | atEnd : Within limit (s.depthAt t) → t.isEnd = true → s.finish t = .error f → StopsAt limit s t f
  | stuck : Within limit (s.depthAt t) → t.isEnd = false → s.step t = .error f → StopsAt limit s t f

/-- The failure of a run at a token is about that token, unless it is a bracket that is still open there. -/
theorem StopsAt.grammar {limit : Option Nat} (h : StopsAt limit s t f) (hread : t.Readable) :
    (∃ fault, f = atToken fault t) ∨ ∃ position, f = .grammar ⟨.unclosed, position, t⟩ := by
  cases h with
  | deep hdeep => exact .inl (checkDepth_fault hdeep)
  | atEnd _ _ hf => exact (finish_error hf).imp_left fun h => ⟨_, h⟩
  | stuck _ _ hs => exact .inl (step_error hread hs)

/-- **A run that fails** stops at the first of its tokens, or goes on behind it and fails there. -/
theorem run_cons_error_cases {limit : Option Nat} {rest : List Token}
    (h : s.run limit failure stop (t :: rest) = .error f) :
    StopsAt limit s t f ∨ (Within limit (s.depthAt t) ∧ t.isEnd = false ∧
      ∃ next, s.step t = .ok next ∧ next.run limit failure t.stop rest = .error f) := by
  rw [run] at h
  split at h
  · next hdeep =>
    cases h
    exact .inl (.deep hdeep)
  · next hd =>
    have hd := within_of_checkDepth hd
    cases he : t.isEnd with
    | true =>
      rw [he] at h
      exact .inl (.atEnd hd he h)
    | false =>
      simp only [he, Bool.false_eq_true, if_false] at h
      cases hs : s.step t with
      | error _ =>
        rw [hs] at h
        cases h
        exact .inl (.stuck hd he hs)
      | ok next =>
        rw [hs] at h
        exact .inr ⟨hd, rfl, next, rfl, h⟩

/-- **A run that fails** gets to the error that its source ends in, or notices a fault at one of the tokens or at the
end. -/
theorem run_failure {limit : Option Nat} {failure : Option ScanError} :
    ∀ (ts : List Token) (s : ParserState) (stop : Int), (∀ t ∈ ts, t.Readable) →
      s.run limit failure stop ts = .error f → (∃ e, failure = some e ∧ f = .scan e) ∨ NoticedIn ts f
  | [], s, stop, _, h => by
    unfold run at h
    split at h
    · exact .inl ⟨_, rfl, (Except.error.inj h).symm⟩
    · split at h
      · next hdeep =>
        cases h
        obtain ⟨fault, rfl⟩ := checkDepth_fault hdeep
        exact .inr ⟨fault, stop, _, rfl, .inr rfl⟩
      · obtain rfl | ⟨position, rfl⟩ := finish_error h
        · exact .inr ⟨.unexpectedEnd, stop, _, rfl, .inr rfl⟩
        · exact .inr ⟨.unclosed, position, _, rfl, .inr rfl⟩
  | t :: rest, s, stop, hread, h => by
    rcases run_cons_error_cases h with hstops | ⟨-, -, next, -, hrun⟩
    · obtain ⟨fault, rfl⟩ | ⟨position, rfl⟩ := hstops.grammar (hread t List.mem_cons_self)
      · exact .inr ⟨fault, t.position, t, rfl, .inl List.mem_cons_self⟩
      · exact .inr ⟨.unclosed, position, t, rfl, .inl List.mem_cons_self⟩
    · exact (run_failure rest next t.stop (fun u hu => hread u (List.mem_cons_of_mem t hu)) hrun).imp_right
        fun hnoticed => hnoticed.mono (List.subset_cons_self t rest)

/-- **A fault is noticed at one of the tokens that are read, or at the end.** -/
theorem run_error {ts : List Token} {stop : Int} (hread : ∀ t ∈ ts, t.Readable)
    (h : s.run none none stop ts = .error f) : NoticedIn ts f :=
  (run_failure ts s stop hread h).resolve_left fun ⟨_, hfailure, _⟩ => nomatch hfailure

/-- **A text is never found unreadable**, since its number tokens have numbers. -/
theorem parse_scan_ne_unreadable (code lexeme : Text) : parse (scan code) ≠ .error (.unreadable lexeme) := by
  intro h
  rw [parse, parseWithin] at h
  obtain ⟨_, _, hfault⟩ | ⟨_, _, _, hfault, _⟩ := run_failure _ _ _ (scan_readable code) h <;> cases hfault

/-! ## Above other levels -/

/-- A token behind a value does the same above levels that take any operator, unless it closed them all. -/
theorem stepBehind_above {outer : List Level} (houter : leastStrength outer = 0) :
    ∀ (value : Expr) (levels : List Level), stepBehind t value levels = .ok next →
      stepBehind t value (levels ++ outer) = .ok (next.above outer) := by
  have htaken : ∀ (value : Expr) (levels : List Level) (op : Operation), taken? levels t = some op →
      taken? (levels ++ outer) t = some op → stepBehind t value levels = .ok next →
      stepBehind t value (levels ++ outer) = .ok (next.above outer) := by
    intro value levels op h hover hstep
    cases (stepBehind_taken value h).symm.trans hstep
    rw [stepBehind_taken value hover]
    cases op <;> rfl
  intro value levels
  induction levels generalizing value with
  | nil =>
    intro hstep
    cases h : taken? [] t with
    | some op =>
      refine htaken value [] op h (taken?_eq_some.2 ⟨(taken?_eq_some.1 h).1, ?_⟩) hstep
      rw [List.nil_append, houter]
      exact Nat.zero_le _
    | none =>
      rw [stepBehind, h] at hstep
      cases hstep
  | cons level inner ih =>
    intro hstep
    cases h : taken? (level :: inner) t with
    | some op => exact htaken value (level :: inner) op h h hstep
    | none =>
      have hover : taken? (level :: (inner ++ outer)) t = none := h
      rw [stepBehind_not_taken value h] at hstep
      cases level with
      | group opening =>
        simp only at hstep
        split at hstep
        · cases hstep
          exact stepBehind_group_close value ‹_›
        · cases hstep
      | argument name opening before =>
        simp only at hstep
        split at hstep
        · cases hstep
          exact stepBehind_argument_comma value ‹_›
        · cases hstep
          exact stepBehind_argument_close value ‹_›
        · cases hstep
      | operand op => exact (stepBehind_operand value hover).trans (ih _ hstep)
      | rightOperand op left => exact (stepBehind_rightOperand value hover).trans (ih _ hstep)

theorem step_above {outer : List Level} (houter : leastStrength outer = 0) (h : s.step t = .ok next) :
    (s.above outer).step t = .ok (next.above outer) := by
  obtain ⟨levels, focus⟩ := s
  cases focus with
  | nothing =>
    have hstart : startValue levels t = .ok next := h
    show startValue (levels ++ outer) t = _
    rw [startValue_above, hstart]
    rfl
  | name n =>
    by_cases ho : t.kind = .bracketOpen
    · simp only [step, ho, if_true] at h
      cases h
      simp only [above, step, ho, if_true]
    · simp only [step, ho, if_false] at h
      simp only [above, step, ho, if_false]
      exact stepBehind_above houter _ levels h
  | callOpened name opening =>
    by_cases hc : t.kind = .bracketClose
    · simp only [step, hc, if_true] at h
      cases h
      simp only [above, step, hc, if_true]
    · simp only [step, hc, if_false] at h
      simp only [above, step, hc, if_false]
      rw [← List.cons_append, startValue_above, h]
      rfl
  | value value => exact stepBehind_above houter value levels h

/-- Where the end completes a tree, so does a token that is no operator. -/
theorem stepBehind_of_finishBehind {outer : List Level} {stop : Token} (ht : t.kind.trailing? = none) :
    ∀ (value : Expr) (levels : List Level), finishBehind stop value levels = .ok tree →
      stepBehind t value (levels ++ outer) = stepBehind t tree outer
  | value, [], h => by
    cases h
    rfl
  | _, .group _ :: _, h | _, .argument .. :: _, h => by cases h
  | value, .operand op :: inner, h => by
    rw [List.cons_append, stepBehind_operand value (taken?_of_no_trailing ht)]
    exact stepBehind_of_finishBehind ht _ inner h
  | value, .rightOperand op left :: inner, h => by
    rw [List.cons_append, stepBehind_rightOperand value (taken?_of_no_trailing ht)]
    exact stepBehind_of_finishBehind ht _ inner h

theorem step_of_finish {outer : List Level} {stop : Token} (hc : t.kind = .bracketClose)
    (h : s.finish stop = .ok tree) : (s.above outer).step t = stepBehind t tree outer := by
  have ht : t.kind.trailing? = none := by rw [hc]; rfl
  obtain ⟨levels, focus⟩ := s
  cases focus with
  | nothing | callOpened => cases h
  | name n =>
    have hopen : t.kind ≠ .bracketOpen := by rw [hc]; decide
    simp only [above, step, hopen, if_false]
    exact stepBehind_of_finishBehind ht _ levels h
  | value value => exact stepBehind_of_finishBehind ht value levels h

/-- **Tokens that are an expression are read to its tree above other levels too**, up to a closing bracket. -/
theorem run_above {outer : List Level} {closing : Token} {rest : List Token} (houter : leastStrength outer = 0)
    (hc : closing.kind = .bracketClose) (hclose : stepBehind closing tree outer = .ok next) :
    ∀ (ts : List Token) (s : ParserState) (stop stop' : Int), (∀ t ∈ ts, t.isEnd = false) →
      s.run none none stop ts = .ok tree →
      (s.above outer).run none failure stop' (ts ++ closing :: rest) = next.run none failure closing.stop rest
  | [], s, stop, stop', _, h =>
    run_cons (within_none _) (Token.isEnd_eq_false (by rw [hc]; decide))
      ((step_of_finish hc (run_nil_ok h)).trans hclose)
  | t :: ts, s, stop, stop', hts, h => by
    have he : t.isEnd = false := hts t List.mem_cons_self
    obtain ⟨-, next, hs, hrun⟩ := run_cons_ok he h
    rw [List.cons_append, run_cons (within_none _) he (step_above houter hs)]
    exact run_above houter hc hclose ts next t.stop t.stop (fun u hu => hts u (List.mem_cons_of_mem t hu)) hrun

/-! ## In front of a bracket, and behind it -/

/-- **What is read first** leads to a fault, or to a state from which the rest is read. -/
theorem run_append : ∀ (before : List Token) (s : ParserState) (stop : Int), (∀ t ∈ before, t.isEnd = false) →
    (∃ f, ∀ rest, s.run none failure stop (before ++ rest) = .error f) ∨
      ∃ (next : ParserState) (stop' : Int), ∀ rest,
        s.run none failure stop (before ++ rest) = next.run none failure stop' rest
  | [], s, stop, _ => .inr ⟨s, stop, fun _ => rfl⟩
  | t :: before, s, stop, hbefore => by
    have he : t.isEnd = false := hbefore t List.mem_cons_self
    cases hs : s.step t with
    | error f => exact .inl ⟨f, fun rest => run_cons_error (within_none _) he hs⟩
    | ok next =>
      have hcons : ∀ rest,
          s.run none failure stop (t :: before ++ rest) = next.run none failure t.stop (before ++ rest) :=
        fun rest => run_cons (within_none _) he hs
      simp only [hcons]
      exact run_append before next t.stop fun u hu => hbefore u (List.mem_cons_of_mem t hu)

/-- `Opened s levels context`: the state behind an opening bracket.  When the bracket is closed behind a tree, the value
under the levels around it is the tree itself or, if the bracket is one of a call, the call. -/
inductive Opened : ParserState → List Level → Expr.Context → Prop
  | group (opening : Token) (levels : List Level) : Opened ⟨.group opening :: levels, .nothing⟩ levels .hole
  | call (name opening : Token) (levels : List Level) :
      Opened ⟨levels, .callOpened name opening⟩ levels (.argument name.lexeme [] .hole [] (some name.position))

theorem stepBehind_bracketOpen (ho : t.kind = .bracketOpen) : ∀ (value : Expr) (levels : List Level),
    stepBehind t value levels ≠ .ok next := by
  have htrailing : t.kind.trailing? = none := by rw [ho]; rfl
  intro value levels h
  induction levels generalizing value with
  | nil =>
    rw [stepBehind, taken?_of_no_trailing htrailing] at h
    cases h
  | cons level outer ih =>
    have hnone : taken? (level :: outer) t = none := taken?_of_no_trailing htrailing
    cases level with
    | group opening =>
      rw [stepBehind_group_other value hnone (by rw [ho]; decide)] at h
      cases h
    | argument name opening before =>
      rw [stepBehind_argument_other value hnone (by rw [ho]; decide) (by rw [ho]; decide)] at h
      cases h
    | operand op =>
      rw [stepBehind_operand value hnone] at h
      exact ih _ h
    | rightOperand op left =>
      rw [stepBehind_rightOperand value hnone] at h
      exact ih _ h

theorem step_bracketOpen (ho : t.kind = .bracketOpen) (h : s.step t = .ok next) :
    ∃ levels context, Opened next levels context := by
  obtain ⟨levels, focus⟩ := s
  cases focus with
  | nothing =>
    cases (startValue_bracketOpen levels ho).symm.trans h
    exact ⟨_, _, .group t levels⟩
  | name n =>
    simp only [step, ho, if_true] at h
    cases h
    exact ⟨_, _, .call n t levels⟩
  | callOpened name opening =>
    have hc : t.kind ≠ .bracketClose := by rw [ho]; decide
    simp only [step, hc, if_false] at h
    cases (startValue_bracketOpen _ ho).symm.trans h
    exact ⟨_, _, .group t _⟩
  | value value => exact absurd h (stepBehind_bracketOpen ho value levels)

/-- An expression does not start with a closing bracket. -/
theorem upNext_ne_bracketClose {ts rest : List Token} (hts : ∀ t ∈ ts, t.isEnd = false)
    (hrun : ParserState.initial.run none none 0 ts = .ok tree) (stop : Int) :
    (upNext stop (ts ++ rest)).kind ≠ .bracketClose := by
  cases ts with
  | nil => cases run_nil_ok hrun
  | cons u ts =>
    obtain ⟨-, next, hs, -⟩ := run_cons_ok (hts u List.mem_cons_self) hrun
    intro (hk : u.kind = .bracketClose)
    obtain ⟨hk', -⟩ | ⟨hk', -⟩ | ⟨hk', -⟩ | ⟨op, hop, -⟩ := startValue_ok (show startValue [] u = .ok next from hs)
    · cases hk.symm.trans hk'
    · cases hk.symm.trans hk'
    · cases hk.symm.trans hk'
    · rw [hk] at hop
      cases hop

/-- **An expression in brackets** is read to its tree, and then to the tree or the call that it is the argument of. -/
theorem Opened.run_eq {levels : List Level} {context : Expr.Context} {closing : Token} {ts rest : List Token}
    (h : Opened s levels context) (hc : closing.kind = .bracketClose) (hts : ∀ t ∈ ts, t.isEnd = false)
    (hrun : ParserState.initial.run none none 0 ts = .ok tree) (stop : Int) :
    s.run none failure stop (ts ++ closing :: rest) =
      run none failure ⟨levels, .value (context.fill tree)⟩ closing.stop rest := by
  cases h with
  | group opening => exact run_above rfl hc (stepBehind_group_close tree hc) ts .initial 0 stop hts hrun
  | call name opening =>
    rw [run_callOpened (upNext_ne_bracketClose hts hrun stop)]
    exact run_above rfl hc (stepBehind_argument_close tree hc) ts .initial 0 stop hts hrun

/-- **Brackets isolate.**  Whatever expression stands in a pair of brackets, the outcome is the same: a fault at a token
outside of them, or a tree that has the tree of the expression in the same place. -/
theorem run_around (before behind : List Token) {opening closing : Token} (ho : opening.kind = .bracketOpen)
    (hc : closing.kind = .bracketClose) (hbefore : ∀ t ∈ before, t.isEnd = false)
    (hread : ∀ t ∈ before ++ behind, t.Readable) :
    ∃ holed : Except ParseFailure Expr.Context,
      (∀ f, holed = .error f → NoticedIn (before ++ opening :: closing :: behind) f) ∧
      ∀ ts tree, (∀ t ∈ ts, t.isEnd = false) → ParserState.initial.run none none 0 ts = .ok tree →
        ParserState.initial.run none none 0 (before ++ opening :: (ts ++ closing :: behind)) =
          holed.map (·.fill tree) := by
  have hopening : opening.Readable := fun hk => by rw [ho] at hk; cases hk
  rcases run_append before .initial 0 hbefore with ⟨f, hrun⟩ | ⟨next, stop, hrun⟩
  · refine ⟨.error f, ?_, fun ts tree _ _ => hrun _⟩
    rintro _ ⟨⟩
    have hnoticed : NoticedIn (before ++ []) f :=
      run_error (fun t ht => hread t (by rw [List.append_nil] at ht; exact List.mem_append_left _ ht)) (hrun [])
    exact hnoticed.mono (by rw [List.append_nil]; exact List.subset_append_left _ _)
  have he : opening.isEnd = false := Token.isEnd_eq_false (by rw [ho]; decide)
  cases hs : next.step opening with
  | error f =>
    refine ⟨.error f, ?_, fun ts tree _ _ => (hrun _).trans (run_cons_error (within_none _) he hs)⟩
    rintro _ ⟨⟩
    obtain ⟨fault, rfl⟩ := step_error hopening hs
    exact ⟨fault, _, opening, rfl, .inl (List.mem_append_right _ List.mem_cons_self)⟩
  | ok inside =>
    obtain ⟨levels, context, hopened⟩ := step_bracketOpen ho hs
    obtain ⟨holed, hholed⟩ :=
      ParserState.Context.run_uniform none behind (.value levels context) closing.stop
    refine ⟨holed, ?_, fun ts tree hts htree => ?_⟩
    · rintro f rfl
      refine (run_error (fun t ht => hread t (List.mem_append_right _ ht)) (hholed default)).mono ?_
      exact fun t ht => List.mem_append_right _ (List.mem_cons_of_mem _ (List.mem_cons_of_mem _ ht))
    · rw [hrun, run_cons (within_none _) he hs, hopened.run_eq hc hts htree]
      exact hholed tree

end Calculator
