import Calculator.Proofs.Evaluation.Isolation
import Calculator.Proofs.Expr.Culprit
/-!
# Failures point to what they name

Scanner, parser and evaluation each take their places from the text: the scanner from where it is, the parser from the
tokens, and the evaluation from the names in the tree.  What a failure says is wrong therefore stands in the text at the
place of the failure (`pointsAt_of_calculate`), and only a tree that is too deep is about no place.
-/
namespace Calculator

variable {r : Registry} {code : Text}

/-! ## What stands at the place of a failure -/

/-- A name that a bracket follows directly is a token of the text, at a place. -/
def CalledAt (code name : Text) (place : Int) : Prop :=
  ∃ before t opening behind, (scan code).tokens = before ++ t :: opening :: behind ∧ t.lexeme = name ∧
    t.position = place ∧ opening.lexeme = ['(']

/-- What a syntax error names stands at its place: the token at which it is noticed or, if the end came inside a
bracket, that bracket, which is closed nowhere. -/
def SyntaxError.PointsAt (code : Text) (e : SyntaxError) : Prop :=
  match e.fault with
  | .unclosed => e.found = .endMark code.length ∧
      ∃ p : Nat, e.position = p ∧ code[p]? = some '(' ∧ ∀ j, ¬ Closes code p j
  | _ => e.position = e.found.position ∧ StandsAt code e.found.lexeme e.position ∧
      (e.found.isEnd = true → e.position = code.length)

def EvalError.PointsAt (code : Text) : EvalError → Prop
  | .unknownConstant name position => ∃ p, position = some p ∧ StandsAt code name p
  | .unknownFunction name position => ∃ p, position = some p ∧ StandsAt code name p ∧ CalledAt code name p
  | .arityMismatch name position .. => ∃ p, position = some p ∧ StandsAt code name p ∧ CalledAt code name p
  | .tooDeep => True

/-- What a failure names stands at its place. -/
def Failure.PointsAt (code : Text) : Failure → Prop
  | .parsing (.scan e) => StandsAt code e.fault.found e.position
  | .parsing (.grammar e) => e.PointsAt code
  | .parsing (.unreadable _) => False
  | .evaluation e => e.PointsAt code

/-! ## Syntax errors -/

theorem syntax_pointsAt {e : SyntaxError} (h : parse (scan code) = .error (.grammar e)) : e.PointsAt code := by
  obtain ⟨hlast, hposition⟩ := isLastRead_of_parse h
  obtain ⟨hstands, hend⟩ := standsAt_of_mem_scan hlast.mem
  have htoken : e.fault ≠ .unclosed → e.position = e.found.position ∧ StandsAt code e.found.lexeme e.position ∧
      (e.found.isEnd = true → e.position = code.length) := by
    intro hfault
    have hposition := hposition.resolve_left hfault
    refine ⟨hposition, by rwa [hposition], fun hisEnd => ?_⟩
    rw [hposition, hend hisEnd]
    rfl
  obtain ⟨fault, position, found⟩ := e
  cases fault with
  | unclosed =>
    obtain ⟨hisEnd, hbracket⟩ := unclosed_of_parse h
    exact ⟨hend hisEnd, hbracket⟩
  | _ => exact htoken nofun

/-! ## Evaluation errors -/

theorem opening_of_kind {t : Token} (ht : t ∈ (scan code).tokens) (hk : t.kind = .bracketOpen) : t.lexeme = ['('] := by
  rcases (scan_words code t ht (by rw [hk]; decide)).brackets with ⟨-, hlexeme⟩ | ⟨hclose, -⟩ | ⟨hopen, -⟩
  · exact hlexeme
  · cases hk.symm.trans hclose
  · exact absurd hk hopen

/-- **A wrong name** stands at the place of its error, and if it is the name of a function, a bracket is behind it. -/
theorem offends_pointsAt {front behind : List Token} {t : Token} {e : EvalError}
    (htokens : (scan code).tokens = front ++ behind) (h : Offends r front t e) : e.PointsAt code := by
  have hmem : ∀ u ∈ front, u ∈ (scan code).tokens := by
    intro u hu
    rw [htokens]
    exact List.mem_append_left behind hu
  have hstands : StandsAt code t.lexeme t.position := (standsAt_of_mem_scan (hmem t h.mem)).1
  obtain ⟨before, rest, rfl, hoffence⟩ := h
  obtain rfl | ⟨opening, inside, rfl, hk, hcall⟩ := offence?_cases hoffence
  · exact ⟨t.position, rfl, hstands⟩
  · have hopening : opening ∈ (scan code).tokens :=
      hmem opening (List.mem_append_right before (List.mem_cons_of_mem t List.mem_cons_self))
    have hcalled : CalledAt code t.lexeme t.position := by
      refine ⟨before, t, opening, inside ++ behind, ?_, rfl, rfl, opening_of_kind hopening hk⟩
      rw [htokens, List.append_assoc]
      rfl
    obtain rfl | ⟨f, -, rfl⟩ := hcall
    · exact ⟨t.position, rfl, hstands, hcalled⟩
    · exact ⟨t.position, rfl, hstands, hcalled⟩

theorem offends_of_evaluate [Platform] {tree : Expr} {e : EvalError} (hparse : parse (scan code) = .ok tree)
    (h : evaluate r tree = .error e) (hdeep : e ≠ .tooDeep) :
    ∃ front behind t, (scan code).tokens = front ++ behind ∧ Offends r front t e := by
  obtain ⟨front, hscan, -, hsentence⟩ := accepted_of_parse hparse
  have heval : eval r tree = .error e := by
    rw [← h]
    exact (evalWithin_eq_eval (by rw [← evaluate, h]; simpa using hdeep)).symm
  obtain ⟨t, ht⟩ := offends_of_eval hsentence heval
  exact ⟨front, _, t, congrArg Source.tokens hscan, ht⟩

theorem eval_pointsAt [Platform] {tree : Expr} {e : EvalError} (hparse : parse (scan code) = .ok tree)
    (h : evaluate r tree = .error e) : e.PointsAt code := by
  by_cases hdeep : e = .tooDeep
  · rw [hdeep]
    exact trivial
  · obtain ⟨front, behind, t, htokens, ht⟩ := offends_of_evaluate hparse h hdeep
    exact offends_pointsAt htokens ht

/-! ## All failures -/

theorem calculate_error_cases [Platform] {f : Failure} (h : calculate r code = .error f) :
    (∃ e, f = .parsing (.scan e) ∧ (scan code).failure = some e) ∨
    (∃ e, f = .parsing (.grammar e) ∧ parse (scan code) = .error (.grammar e)) ∨
    ∃ e tree, f = .evaluation e ∧ parse (scan code) = .ok tree ∧ evaluate r tree = .error e := by
  rw [calculate, calculateSource] at h
  cases hparse : parse (scan code) with
  | error e =>
    rw [hparse] at h
    cases h
    obtain ⟨e, hfailure, rfl⟩ | ⟨fault, position, found, rfl, -⟩ := run_failure _ _ _ (scan_readable code) hparse
    · exact .inl ⟨e, rfl, hfailure⟩
    · exact .inr (.inl ⟨_, rfl, rfl⟩)
  | ok tree =>
    rw [hparse] at h
    cases hevaluate : evaluate r tree with
    | error e =>
      simp only [hevaluate] at h
      cases h
      exact .inr (.inr ⟨e, tree, rfl, rfl, hevaluate⟩)
    | ok x =>
      simp only [hevaluate] at h
      cases h

theorem pointsAt_of_calculate [Platform] {f : Failure} (h : calculate r code = .error f) : f.PointsAt code := by
  obtain ⟨e, rfl, hfailure⟩ | ⟨e, rfl, hparse⟩ | ⟨e, tree, rfl, hparse, hevaluate⟩ := calculate_error_cases h
  · exact (fault_of_scan hfailure).1
  · exact syntax_pointsAt hparse
  · exact eval_pointsAt hparse hevaluate

theorem SyntaxError.PointsAt.bounds {e : SyntaxError} (h : e.PointsAt code) :
    0 ≤ e.position ∧ e.position ≤ code.length := by
  obtain ⟨fault, position, found⟩ := e
  cases fault with
  | unclosed =>
    obtain ⟨-, p, rfl, hp, -⟩ := h
    obtain ⟨hlt, -⟩ := List.getElem?_eq_some_iff.1 hp
    exact ⟨Int.natCast_nonneg p, Int.ofNat_le.2 (Nat.le_of_lt hlt)⟩
  | _ => exact h.2.1.bounds

theorem EvalError.PointsAt.bounds {e : EvalError} (h : e.PointsAt code) :
    e = .tooDeep ∨ ∃ p, e.position? = some p ∧ 0 ≤ p ∧ p ≤ code.length := by
  cases e with
  | tooDeep => exact .inl rfl
  | unknownConstant =>
    obtain ⟨p, rfl, hp⟩ := h
    exact .inr ⟨p, rfl, hp.bounds⟩
  | unknownFunction | arityMismatch =>
    obtain ⟨p, rfl, hp, -⟩ := h
    exact .inr ⟨p, rfl, hp.bounds⟩

/-- **A failure has a place in the text**, unless a tree is too deep. -/
theorem Failure.PointsAt.bounds {f : Failure} (h : f.PointsAt code) :
    f = .evaluation .tooDeep ∨ ∃ p, f.position? = some p ∧ 0 ≤ p ∧ p ≤ code.length := by
  cases f with
  | evaluation e => exact (EvalError.PointsAt.bounds h).imp_left (congrArg Failure.evaluation)
  | parsing e =>
    cases e with
    | scan e => exact .inr ⟨e.position, rfl, StandsAt.bounds h⟩
    | grammar e => exact .inr ⟨e.position, rfl, SyntaxError.PointsAt.bounds h⟩
    | unreadable => cases h

/-- **Failures point to what they name.**  Every failure of a text has a place in it or at its end, but for a tree that
is too deep.  What the failure names stands there: the characters that no token can have, the token that cannot go on or
the end, the wrong name, with a bracket behind it if it is that of a function, or the bracket that is closed nowhere,
and then the failure is noticed at the end.  The token of a syntax error is the last one that the parser reads. -/
theorem failure_points_to_culprit [Platform] (r : Registry) (code : Text) (f : Failure)
    (h : calculate r code = .error f) :
    (f.position? = none ↔ f = .evaluation .tooDeep) ∧
    (∀ p, f.position? = some p → 0 ≤ p ∧ p ≤ code.length) ∧
    f.PointsAt code ∧
    ∀ e, f = .parsing (.grammar e) → e.IsLastRead (scan code) := by
  have hpoints := pointsAt_of_calculate h
  refine ⟨?_, ?_, hpoints, ?_⟩
  · rcases hpoints.bounds with rfl | ⟨p, hp, -⟩
    · exact ⟨fun _ => rfl, fun _ => rfl⟩
    · rw [hp]
      refine ⟨nofun, ?_⟩
      rintro rfl
      cases hp
  · intro p hp
    rcases hpoints.bounds with rfl | ⟨p', hp', hbounds⟩
    · cases hp
    · cases hp.symm.trans hp'
      exact hbounds
  · rintro e rfl
    obtain ⟨_, hf, -⟩ | ⟨_, hf, hparse⟩ | ⟨_, _, hf, -⟩ := calculate_error_cases h <;> cases hf
    exact (isLastRead_of_parse hparse).1

/-- In `(1)+(2` the second bracket is the culprit. -/
theorem failure_points_to_culprit_second_bracket :
    let code := ['(', '1', ')', '+', '(', '2']
    let e : SyntaxError := ⟨.unclosed, 4, .endMark 6⟩
    calculate .builtin code = .error (.parsing (.grammar e)) ∧ e.PointsAt code ∧ e.IsLastRead (scan code) := by
  intro code e
  have h : calculate .builtin code = .error (.parsing (.grammar e)) := by rfl
  obtain ⟨-, -, hpoints, hlast⟩ := failure_points_to_culprit .builtin code _ h
  exact ⟨h, hpoints, hlast e rfl⟩

end Calculator
