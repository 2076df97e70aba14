import Calculator.Proofs.Evaluation.NameErrors
import Calculator.Proofs.Expr.Isolation
/-!
# The value of what stands in brackets

A tree with a hole has one value for all trees of one value in the hole, and one error for all trees that have a value
there.  That error is about a name outside of the hole.  So of an expression in brackets nothing but its value counts
for the expression around it (`brackets_isolate`).
-/
namespace Calculator

open ParserState

variable {r : Registry}

/-! ## Trees with a hole -/

theorem evalAll_congr [Platform] {e e' : Expr} (h : eval r e = eval r e') (after : List Expr) : ∀ before : List Expr,
    evalAll r (before ++ e :: after) = evalAll r (before ++ e' :: after)
  | [] => by rw [List.nil_append, List.nil_append, evalAll, evalAll, h]
  | first :: before => by rw [List.cons_append, List.cons_append, evalAll, evalAll, evalAll_congr h after before]

/-- **A tree counts by its value.** -/
theorem eval_fill_congr [Platform] {e e' : Expr} (h : eval r e = eval r e') : ∀ context : Expr.Context,
    eval r (context.fill e) = eval r (context.fill e')
  | .hole => h
  | .unary op inside => by
    rw [Expr.Context.fill, Expr.Context.fill, eval, eval, eval_fill_congr h inside]
  | .left op inside other => by
    rw [Expr.Context.fill, Expr.Context.fill, eval, eval, eval_fill_congr h inside]
  | .right op other inside => by
    rw [Expr.Context.fill, Expr.Context.fill, eval, eval, eval_fill_congr h inside]
  | .argument name before inside after position => by
    have hlength : (before ++ inside.fill e :: after).length = (before ++ inside.fill e' :: after).length := by
      simp only [List.length_append, List.length_cons]
    rw [Expr.Context.fill, Expr.Context.fill, eval, eval, hlength, evalAll_congr (eval_fill_congr h inside)]

theorem walkAll_append (cost : Nat) (after : List Expr) : ∀ before : List Expr,
    walkAll cost (before ++ after) = walkAll cost before ++ walkAll cost after
  | [] => rfl
  | e :: before => by rw [List.cons_append, walkAll, walkAll, walkAll_append cost after before, List.append_assoc]

/-- The walk meets the same wrong name first, if it meets the same one in the hole. -/
theorem findSome?_walk_fill {e e' : Expr}
    (h : ∀ cost, (walk cost e).findSome? (Visit.fault? r) = (walk cost e').findSome? (Visit.fault? r)) :
    ∀ (context : Expr.Context) (cost : Nat),
      (walk cost (context.fill e)).findSome? (Visit.fault? r) = (walk cost (context.fill e')).findSome? (Visit.fault? r)
  | .hole, cost => h cost
  | .unary op inside, cost => by
    simp only [Expr.Context.fill, walk, findSome?_visit, findSome?_walk_fill h inside]
    rfl
  | .left op inside other, cost | .right op other inside, cost => by
    simp only [Expr.Context.fill, walk, findSome?_visit, List.findSome?_append, findSome?_walk_fill h inside]
    rfl
  | .argument name before inside after position, cost => by
    simp only [Expr.Context.fill, walk, walkAll, walkAll_append, findSome?_visit, List.findSome?_append,
      findSome?_walk_fill h inside, Visit.fault?, List.length_append, List.length_cons]

/-- **The error around a hole** is the same whatever has a value in the hole. -/
theorem failure?_fill [Platform] {e e' : Expr} {x x' : Binary64} (he : eval r e = .ok x) (he' : eval r e' = .ok x')
    (context : Expr.Context) : failure? (eval r (context.fill e)) = failure? (eval r (context.fill e')) := by
  rw [failure?_eval _ 0, failure?_eval _ 0]
  refine findSome?_walk_fill (fun cost => ?_) context 0
  rw [← failure?_eval, ← failure?_eval, he, he']
  rfl

/-! ## Errors about tokens -/

theorem exists_offends_of_firstOffence? {e : EvalError} : ∀ {ts : List Token}, firstOffence? r ts = some e →
    ∃ t, Offends r ts t e
  | [], h => by cases h
  | u :: rest, h => by
    rw [firstOffence?] at h
    cases hu : offence? r u rest with
    | some e' =>
      rw [hu] at h
      cases h
      exact ⟨u, offends_cons.2 (.inl ⟨rfl, hu⟩)⟩
    | none =>
      rw [hu] at h
      obtain ⟨t, ht⟩ := exists_offends_of_firstOffence? h
      exact ⟨t, offends_cons.2 (.inr ht)⟩

/-- An error is about a token that is a name, and spells it and points to it. -/
def EvalError.IsAbout (e : EvalError) (t : Token) : Prop :=
  t.kind = .identifier ∧ e.name = t.lexeme ∧ e.position? = some t.position

theorem offends_of_eval [Platform] {limit : Nat} {ts : List Token} {tree : Expr} {e : EvalError}
    (h : Sentence limit ts tree) (he : eval r tree = .error e) : ∃ t, Offends r ts t e := by
  refine exists_offends_of_firstOffence? ?_
  rw [h.2.firstOffence?_eq 0, firstOffence?, Option.or_none, ← failure?_eval, he]
  rfl

/-- **An error of an expression is about one of its tokens.** -/
theorem isAbout_of_eval [Platform] {limit : Nat} {ts : List Token} {tree : Expr} {e : EvalError}
    (h : Sentence limit ts tree) (he : eval r tree = .error e) : ∃ t ∈ ts, e.IsAbout t := by
  obtain ⟨t, hoffends⟩ := offends_of_eval h he
  obtain ⟨before, rest, -, hoffence⟩ := id hoffends
  refine ⟨t, hoffends.mem, ?_, offence?_about hoffence⟩
  by_contra hk
  rw [offence?_of_ne hk] at hoffence
  cases hoffence

/-- A run that is accepted is accepted under a limit as well, if that is large enough. -/
theorem exists_limit_of_run {tree : Expr} : ∀ (ts : List Token) (s : ParserState) (stop : Int),
    s.run none none stop ts = .ok tree → ∃ n, ∀ m, n ≤ m → s.run (some m) none stop ts = .ok tree
  | [], s, stop, h =>
    ⟨s.depthAt (.endMark stop), fun m hm => run_ok_nil.2 ⟨within_some.2 hm, (run_ok_nil.1 h).2⟩⟩
  | t :: rest, s, stop, h => by
    cases he : t.isEnd with
    | true => exact ⟨s.depthAt t, fun m hm => (run_ok_end he).2 ⟨within_some.2 hm, ((run_ok_end he).1 h).2⟩⟩
    | false =>
      obtain ⟨-, next, hs, hrun⟩ := run_cons_ok he h
      obtain ⟨n, hn⟩ := exists_limit_of_run rest next t.stop hrun
      refine ⟨max (s.depthAt t) n, fun m hm => ?_⟩
      rw [run_cons (within_some.2 (Nat.le_trans (Nat.le_max_left _ _) hm)) he hs]
      exact hn m (Nat.le_trans (Nat.le_max_right _ _) hm)

/-! ## Brackets -/

/-- Without the limit a run that does not come to it has the same outcome. -/
theorem run_eq_parse {ts : List Token}
    (h : ∀ limit position found, parse (.ofTokens ts) ≠ .error (.grammar ⟨.tooDeep limit, position, found⟩)) :
    ParserState.initial.run none none 0 ts = parse (.ofTokens ts) := by
  rcases ParserState.run_some_or nestingLimit none ts .initial 0 with hsame | ⟨t, hdeep⟩
  · exact hsame.symm
  · exact absurd hdeep (h nestingLimit t.position t)

/-- A value that names nothing. -/
def zeroToken : Token := ⟨.number, ['0'], 0⟩

/-- The error around brackets is about a token outside of them. -/
theorem isAbout_around [Platform] {before behind : List Token} {opening closing : Token} {context : Expr.Context}
    {e : EvalError} (ho : opening.kind = .bracketOpen) (hc : closing.kind = .bracketClose)
    (hend : ∀ t ∈ before ++ behind, t.isEnd = false)
    (hrun : ∀ ts tree, (∀ t ∈ ts, t.isEnd = false) → ParserState.initial.run none none 0 ts = .ok tree →
      ParserState.initial.run none none 0 (before ++ opening :: (ts ++ closing :: behind)) = .ok (context.fill tree))
    {tree : Expr} {x : Binary64} (htree : eval r tree = .ok x) (he : eval r (context.fill tree) = .error e) :
    ∃ t ∈ before ++ behind, e.IsAbout t := by
  -- a number in the place of the expression leaves no token but those outside to be wrong
  have hzero : ∃ z, ParserState.initial.run none none 0 [zeroToken] = .ok (.literal z) := ⟨_, rfl⟩
  obtain ⟨z, hz⟩ := hzero
  have hwhole := hrun [zeroToken] _ (by decide) hz
  obtain ⟨n, hn⟩ := exists_limit_of_run _ _ _ hwhole
  have hts : ∀ t ∈ before ++ opening :: ([zeroToken] ++ closing :: behind), t.isEnd = false := by
    intro t ht
    simp only [List.mem_append, List.mem_cons, List.not_mem_nil, or_false] at ht
    rcases ht with ht | rfl | rfl | rfl | ht
    · exact hend t (List.mem_append_left _ ht)
    · exact Token.isEnd_eq_false (by rw [ho]; decide)
    · rfl
    · exact Token.isEnd_eq_false (by rw [hc]; decide)
    · exact hend t (List.mem_append_right _ ht)
  have herror : eval r (context.fill (.literal z)) = .error e := by
    rw [← failure?_eq_some, failure?_fill (x := z) rfl htree, he]
    rfl
  obtain ⟨t, ht, habout⟩ := isAbout_of_eval (sentence_of_run hts (hn n (Nat.le_refl n))) herror
  refine ⟨t, ?_, habout⟩
  simp only [List.mem_append, List.mem_cons, List.not_mem_nil, or_false] at ht ⊢
  rcases ht with ht | rfl | rfl | rfl | ht
  · exact .inl ht
  · cases ho.symm.trans habout.1
  · cases habout.1
  · cases hc.symm.trans habout.1
  · exact .inr ht

/-- **Brackets isolate.**  Let two expressions stand in the same pair of brackets, the brackets of a call or others, and
let neither whole be nested too deep.  Then both wholes are rejected with the same fault at the same token, which is not
in the brackets; or both are accepted, and their trees are one tree with a hole, filled with the two trees.  If the two
expressions have the same value, and neither whole is too deep to evaluate, then both wholes have the same value or the
same error, which is about a name outside of the brackets. -/
theorem brackets_isolate [Platform] (before s s' behind : List Token) (opening closing : Token) (e e' : Expr)
    (ho : opening.kind = .bracketOpen) (hc : closing.kind = .bracketClose)
    (hend : ∀ t ∈ before ++ s ++ s' ++ behind, t.isEnd = false) (hread : ∀ t ∈ before ++ behind, t.Readable)
    (hs : parse (.ofTokens s) = .ok e) (hs' : parse (.ofTokens s') = .ok e')
    (hdeep : ∀ limit position found, parse (.ofTokens (before ++ opening :: (s ++ closing :: behind))) ≠
      .error (.grammar ⟨.tooDeep limit, position, found⟩))
    (hdeep' : ∀ limit position found, parse (.ofTokens (before ++ opening :: (s' ++ closing :: behind))) ≠
      .error (.grammar ⟨.tooDeep limit, position, found⟩)) :
    (∃ context : Expr.Context,
      parse (.ofTokens (before ++ opening :: (s ++ closing :: behind))) = .ok (context.fill e) ∧
      parse (.ofTokens (before ++ opening :: (s' ++ closing :: behind))) = .ok (context.fill e') ∧
      ∀ (r : Registry) (x : Binary64), evaluate r e = .ok x → evaluate r e' = .ok x →
        evaluate r (context.fill e) ≠ .error .tooDeep → evaluate r (context.fill e') ≠ .error .tooDeep →
        evaluate r (context.fill e) = evaluate r (context.fill e') ∧
        ∀ error, evaluate r (context.fill e) = .error error → ∃ t ∈ before ++ behind, error.IsAbout t) ∨
    ∃ fault position found,
      parse (.ofTokens (before ++ opening :: (s ++ closing :: behind))) = .error (.grammar ⟨fault, position, found⟩) ∧
      parse (.ofTokens (before ++ opening :: (s' ++ closing :: behind))) = .error (.grammar ⟨fault, position, found⟩) ∧
      (found ∈ before ++ opening :: closing :: behind ∨ found.isEnd = true) := by
  simp only [List.mem_append] at hend
  have alone : ∀ {ts : List Token} {tree : Expr}, parse (.ofTokens ts) = .ok tree →
      ParserState.initial.run none none 0 ts = .ok tree := by
    intro ts tree h
    rw [run_eq_parse (by rw [h]; nofun), h]
  obtain ⟨holed, hnoticed, hrun⟩ :=
    run_around before behind ho hc (fun t ht => hend t (.inl (.inl (.inl ht)))) hread
  have hwhole := hrun s e (fun t ht => hend t (.inl (.inl (.inr ht)))) (alone hs)
  have hwhole' := hrun s' e' (fun t ht => hend t (.inl (.inr ht))) (alone hs')
  rw [run_eq_parse hdeep] at hwhole
  rw [run_eq_parse hdeep'] at hwhole'
  cases holed with
  | error f =>
    obtain ⟨fault, position, found, rfl, hfound⟩ := hnoticed f rfl
    exact .inr ⟨fault, position, found, hwhole, hwhole', hfound⟩
  | ok context =>
    refine .inl ⟨context, hwhole, hwhole', fun r x hx hx' hne hne' => ?_⟩
    have unlimited : ∀ {tree : Expr}, evaluate r tree = .ok x → eval r tree = .ok x := by
      intro tree h
      rw [← h]
      exact (evalWithin_eq_eval (by rw [← evaluate, h]; nofun)).symm
    rw [evaluate, evaluate, evalWithin_eq_eval hne, evalWithin_eq_eval hne']
    refine ⟨eval_fill_congr ((unlimited hx).trans (unlimited hx').symm) context, fun error herror => ?_⟩
    exact isAbout_around ho hc (fun t ht => hend t ((List.mem_append.1 ht).imp_left fun h => .inl (.inl h))) hrun
      (unlimited hx) herror

/-- `e*sqrt(+pi)^x` and `e*sqrt(pi)^x` have the same unknown constant. -/
theorem brackets_isolate_call :
    let before : List Token := [⟨.identifier, ['e'], 0⟩, ⟨.star, ['*'], 1⟩, ⟨.identifier, ['s', 'q', 'r', 't'], 2⟩]
    let s : List Token := [⟨.plus, ['+'], 7⟩, ⟨.identifier, ['p', 'i'], 8⟩]
    let s' : List Token := [⟨.identifier, ['p', 'i'], 7⟩]
    let behind : List Token := [⟨.caret, ['^'], 11⟩, ⟨.identifier, ['x'], 12⟩]
    let opening : Token := ⟨.bracketOpen, ['('], 6⟩
    let closing : Token := ⟨.bracketClose, [')'], 10⟩
    ∃ e e' context,
      parse (.ofTokens s) = .ok e ∧ parse (.ofTokens s') = .ok e' ∧
      parse (.ofTokens (before ++ opening :: (s ++ closing :: behind))) = .ok (Expr.Context.fill context e) ∧
      parse (.ofTokens (before ++ opening :: (s' ++ closing :: behind))) = .ok (Expr.Context.fill context e') ∧
      evaluate .builtin (context.fill e) = .error (.unknownConstant ['x'] (some 12)) ∧
      evaluate .builtin (context.fill e) = evaluate .builtin (context.fill e') := by
  intro before s s' behind opening closing
  let pi (position : Int) : Expr := .constant ['p', 'i'] (some position)
  let whole (e : Expr) : Expr := .binary .mul (.constant ['e'] (some 0)) (.binary .pow
    (.call ['s', 'q', 'r', 't'] [e] (some 2)) (.constant ['x'] (some 12)))
  have hs : parse (.ofTokens s) = .ok (.unary .pos (pi 8)) := by rfl
  have hs' : parse (.ofTokens s') = .ok (pi 7) := by rfl
  have hwhole : parse (.ofTokens (before ++ opening :: (s ++ closing :: behind))) =
      .ok (whole (.unary .pos (pi 8))) := by rfl
  have hwhole' : parse (.ofTokens (before ++ opening :: (s' ++ closing :: behind))) = .ok (whole (pi 7)) := by rfl
  have herror : evaluate .builtin (whole (.unary .pos (pi 8))) = .error (.unknownConstant ['x'] (some 12)) := by rfl
  have herror' : evaluate .builtin (whole (pi 7)) = .error (.unknownConstant ['x'] (some 12)) := by rfl
  have hnumber : ∀ t ∈ before ++ behind, t.kind ≠ .number := by decide
  rcases brackets_isolate before s s' behind opening closing _ _ rfl rfl (by decide)
    (fun t ht hk => absurd hk (hnumber t ht)) hs hs' (by rw [hwhole]; nofun) (by rw [hwhole']; nofun)
    with ⟨context, h, h', hvalue⟩ | ⟨_, _, _, h, -⟩
  · have hfill : context.fill (.unary .pos (pi 8)) = whole (.unary .pos (pi 8)) := Except.ok.inj (h.symm.trans hwhole)
    have hfill' : context.fill (pi 7) = whole (pi 7) := Except.ok.inj (h'.symm.trans hwhole')
    refine ⟨_, _, context, hs, hs', h, h', by rw [hfill, herror], ?_⟩
    exact (hvalue .builtin _ rfl rfl (by rw [hfill, herror]; nofun) (by rw [hfill', herror']; nofun)).1
  · cases hwhole.symm.trans h

end Calculator
