import Calculator.Proofs.Expr.Accepted
import Calculator.Proofs.Expr.Isolation
import Calculator.Proofs.Token.Brackets
/-!
# The token of a syntax error

The token at which an error is noticed is the last one that the parser reads: with another source from there on the
error is the same, and a source that fails in its stead fails the parser (`LastRead`).  The error points to this token,
unless the end came inside a bracket: then it points to the bracket, which the reader still has among its open ones
(`Reader.read_unclosed`), and which is therefore closed nowhere in the text.
-/
namespace Calculator

open ParserState

variable {limit : Option Nat} {failure : Option ScanError} {s : ParserState} {stop : Int} {t : Token}
  {f : ParseFailure} {e : SyntaxError}

/-! ## The last token that is read -/

theorem StopsAt.run_eq (h : StopsAt limit s t f) (rest : List Token) :
    s.run limit failure stop (t :: rest) = .error f := by
  cases h with
  | deep hdeep => simp only [run, hdeep]
  | atEnd hd he hf => simp only [run, checkDepth_ok hd, he, if_true, hf]
  | stuck hd he hs => exact run_cons_error hd he hs

theorem StopsAt.looked_eq (h : StopsAt limit s t f) (rest : List Token) :
    s.looked limit failure stop (t :: rest) = [t] := by
  cases h with
  | deep hdeep => simp only [looked, hdeep]
  | atEnd hd he _ => simp only [looked, checkDepth_ok hd, he, if_true]
  | stuck hd he hs => simp only [looked, checkDepth_ok hd, he, hs, Bool.false_eq_true, if_false]

theorem looked_cons {next : ParserState} {rest : List Token} (hd : Within limit (s.depthAt t)) (he : t.isEnd = false)
    (hs : s.step t = .ok next) :
    s.looked limit failure stop (t :: rest) = t :: next.looked limit failure t.stop rest := by
  simp only [looked, checkDepth_ok hd, he, hs, Bool.false_eq_true, if_false]

/-- `LastRead limit s stop before e`: behind the tokens `before` a run reads the token of the error `e`, and whatever
follows that token the run ends there with `e`. -/
structure LastRead (limit : Option Nat) (s : ParserState) (stop : Int) (before : List Token) (e : SyntaxError) :
    Prop where
  reached : ∀ fault, s.run limit (some fault) stop before = .error (.scan fault)
  run_eq : ∀ failure behind, s.run limit failure stop (before ++ e.found :: behind) = .error (.grammar e)
  looked_eq : ∀ failure behind, s.looked limit failure stop (before ++ e.found :: behind) = before ++ [e.found]

theorem StopsAt.lastRead (h : StopsAt limit s e.found (.grammar e)) : LastRead limit s stop [] e where
  reached := fun _ => rfl
  run_eq := fun _ => h.run_eq
  looked_eq := fun _ => h.looked_eq

theorem LastRead.cons {next : ParserState} {before : List Token} (hd : Within limit (s.depthAt t))
    (he : t.isEnd = false) (hs : s.step t = .ok next) (h : LastRead limit next t.stop before e) :
    LastRead limit s stop (t :: before) e where
  reached := fun fault => (run_cons hd he hs).trans (h.reached fault)
  run_eq := fun failure behind => (run_cons hd he hs).trans (h.run_eq failure behind)
  looked_eq := fun failure behind => (looked_cons hd he hs).trans (congrArg (t :: ·) (h.looked_eq failure behind))

/-- **The token of an error is the last one that is read**, if the source does not just run out. -/
theorem exists_lastRead : ∀ (ts : List Token) (s : ParserState) (stop : Int), (∀ t ∈ ts, t.Readable) →
    (failure = none → ∃ t ∈ ts, t.isEnd = true) → s.run limit failure stop ts = .error (.grammar e) →
    (e.fault = .unclosed ∨ e.position = e.found.position) ∧
      ∃ before behind, ts = before ++ e.found :: behind ∧ LastRead limit s stop before e
  | [], s, stop, _, hend, h => by
    cases failure with
    | some fault => cases h
    | none =>
      obtain ⟨_, ht, -⟩ := hend rfl
      cases ht
  | t :: rest, s, stop, hread, hend, h => by
    rcases run_cons_error_cases h with hstops | ⟨hd, he, next, hs, hrun⟩
    · rcases hstops.grammar (hread t List.mem_cons_self) with ⟨fault, hfault⟩ | ⟨position, hfault⟩
      · cases hfault
        exact ⟨.inr rfl, [], rest, rfl, hstops.lastRead⟩
      · cases hfault
        exact ⟨.inl rfl, [], rest, rfl, hstops.lastRead⟩
    · -- the token was no end mark, so one is still to come
      have hrest : failure = none → ∃ u ∈ rest, u.isEnd = true := by
        intro hnone
        obtain ⟨u, hu, huend⟩ := hend hnone
        rcases List.mem_cons.1 hu with rfl | hu
        · rw [he] at huend
          cases huend
        · exact ⟨u, hu, huend⟩
      obtain ⟨hposition, before, behind, rfl, hlast⟩ :=
        exists_lastRead rest next t.stop (fun u hu => hread u (List.mem_cons_of_mem t hu)) hrest hrun
      exact ⟨hposition, t :: before, behind, rfl, hlast.cons hd he hs⟩

/-! ## Brackets that are open at the end -/

namespace Reader

/-- What a token does to the open brackets, if it is no fault; a fault is about the token. -/
def Keeps (opened : List Token) (t : Token) : Except ParseFailure Reader → Prop
  | .ok next => next.brackets.map Bracket.opening = bracketsBehind opened t
  | .error f => ∃ fault, fault ≠ .unclosed ∧ f = atToken fault t

variable {r next : Reader}

theorem misplaced_eq (r : Reader) (t : Token) : ∃ fault, fault ≠ .unclosed ∧ r.misplaced t = atToken fault t := by
  unfold misplaced
  split
  · exact ⟨.trailing, nofun, rfl⟩
  · next bracket _ _ => exact ⟨.closingExpected bracket.inCall, nofun, rfl⟩

theorem operand_keeps (r : Reader) (t : Token) : Keeps (r.brackets.map Bracket.opening) t (r.operand t) := by
  unfold operand
  cases hk : t.kind
  case bracketClose =>
    simp only
    split
    · simp only [Keeps, bracketsBehind, hk, List.map_tail]
    · exact ⟨.valueExpected, by decide, rfl⟩
  all_goals first
    | exact ⟨.valueExpected, by decide, rfl⟩
    | simp only [Keeps, bracketsBehind, hk, List.map_cons]

theorem operator_keeps (r : Reader) (t : Token) : Keeps (r.brackets.map Bracket.opening) t (r.operator t) := by
  unfold operator
  cases hk : t.kind
  case bracketOpen =>
    simp only
    split
    · simp only [Keeps, bracketsBehind, hk, List.map_cons]
    · exact misplaced_eq r t
  case bracketClose =>
    simp only
    split
    · exact misplaced_eq r t
    · next hbrackets => simp only [Keeps, bracketsBehind, hk, hbrackets, List.map_cons, List.tail_cons]
  case comma =>
    simp only
    split
    · simp only [Keeps, bracketsBehind, hk]
    · exact misplaced_eq r t
  all_goals first
    | exact misplaced_eq r t
    | simp only [Keeps, bracketsBehind, hk]

theorem token_keeps (r : Reader) (t : Token) : Keeps (r.brackets.map Bracket.opening) t (r.token t) := by
  unfold token
  split
  · exact operand_keeps r t
  · exact operator_keeps r t

theorem atEnd_unclosed {position : Int} {found : Token}
    (h : r.atEnd t = .error (.grammar ⟨.unclosed, position, found⟩)) :
    found = t ∧ ∃ bracket ∈ r.brackets.map Bracket.opening, bracket.position = position := by
  unfold atEnd at h
  split at h
  · cases h
  · cases h
  · next hbrackets =>
    cases h
    rw [hbrackets]
    exact ⟨rfl, _, List.mem_cons_self, rfl⟩

/-- **The bracket of an error** is open behind all tokens before the end. -/
theorem read_unclosed {position : Int} {found : Token} :
    ∀ (ts : List Token) (r : Reader) (stop : Int),
      r.read failure stop ts = .error (.grammar ⟨.unclosed, position, found⟩) → found.isEnd = true ∧
        ∃ bracket ∈ (beforeEnd ts).foldl bracketsBehind (r.brackets.map Bracket.opening), bracket.position = position
  | [], r, stop, h => by
    cases failure with
    | some e => cases h
    | none =>
      obtain ⟨rfl, hbracket⟩ := atEnd_unclosed h
      exact ⟨rfl, hbracket⟩
  | t :: rest, r, stop, h => by
    rw [read] at h
    cases he : t.isEnd with
    | true =>
      rw [he] at h
      obtain ⟨rfl, hbracket⟩ := atEnd_unclosed h
      rw [beforeEnd, List.takeWhile_cons_of_neg (by rw [he]; decide)]
      exact ⟨he, hbracket⟩
    | false =>
      simp only [he, Bool.false_eq_true, if_false] at h
      have hkeeps := token_keeps r t
      cases htoken : r.token t with
      | error f =>
        rw [htoken] at h hkeeps
        obtain ⟨fault, hfault, rfl⟩ := hkeeps
        cases h
        exact absurd rfl hfault
      | ok next =>
        rw [htoken] at h hkeeps
        have hbrackets : next.brackets.map Bracket.opening = bracketsBehind (r.brackets.map Bracket.opening) t := hkeeps
        rw [beforeEnd, List.takeWhile_cons_of_pos (by rw [he]; rfl), List.foldl_cons, ← hbrackets]
        exact read_unclosed rest next t.stop h

end Reader

/-! ## Errors in a text -/

/-- The token of an error is the last one that the parser reads from a source: whatever follows it the error is the
same, and if the source fails in its stead so does the parser. -/
def SyntaxError.IsLastRead (e : SyntaxError) (source : Source) : Prop :=
  ∃ before behind, source.tokens = before ++ e.found :: behind ∧ lookedAt source = before ++ [e.found] ∧
    (∀ failure rest, parse ⟨before ++ e.found :: rest, failure⟩ = .error (.grammar e)) ∧
    ∀ fault, parse ⟨before, some fault⟩ = .error (.scan fault)

variable {code : Text}

theorem exists_isEnd_of_scan (h : (scan code).failure = none) : ∃ t ∈ (scan code).tokens, t.isEnd = true := by
  obtain ⟨front, hscan, -⟩ := tiling_of_scan h
  rw [hscan]
  exact ⟨_, List.mem_append_right _ (List.mem_singleton_self _), rfl⟩

/-- **A syntax error of a text** is about the last token that is read, which is a token of the text, and it points there
unless it is about a bracket. -/
theorem isLastRead_of_parse (h : parse (scan code) = .error (.grammar e)) :
    e.IsLastRead (scan code) ∧ (e.fault = .unclosed ∨ e.position = e.found.position) := by
  obtain ⟨hposition, before, behind, htokens, hlast⟩ :=
    exists_lastRead (scan code).tokens .initial 0 (scan_readable code) exists_isEnd_of_scan h
  refine ⟨⟨before, behind, htokens, ?_, fun failure rest => hlast.run_eq failure rest, hlast.reached⟩, hposition⟩
  rw [lookedAt, htokens]
  exact hlast.looked_eq _ _

theorem SyntaxError.IsLastRead.mem {source : Source} (h : e.IsLastRead source) : e.found ∈ source.tokens := by
  obtain ⟨before, behind, htokens, -⟩ := h
  rw [htokens]
  exact List.mem_append_right _ List.mem_cons_self

/-- **A bracket that a text leaves open** is one that no bracket of the text closes, and this is noticed at the end. -/
theorem unclosed_of_parse {position : Int} {found : Token}
    (h : parse (scan code) = .error (.grammar ⟨.unclosed, position, found⟩)) :
    found.isEnd = true ∧ ∃ p : Nat, position = p ∧ code[p]? = some '(' ∧ ∀ j, ¬ Closes code p j := by
  have hread : readThrough (scan code) = .error (.grammar ⟨.unclosed, position, found⟩) := by
    rcases parseWithin_outcome nestingLimit (scan code) (scan_readable code) with houtcome | ⟨t, hdeep⟩
    · rw [← houtcome, ← parse, h]
      rfl
    · cases h.symm.trans hdeep
  obtain ⟨hend, bracket, hbracket, rfl⟩ := Reader.read_unclosed _ _ _ hread
  have hmem : found ∈ (scan code).tokens := (isLastRead_of_parse h).1.mem
  have hfailure : (scan code).failure = none := by
    cases hfailure : (scan code).failure with
    | none => rfl
    | some fault =>
      rw [isEnd_eq_false_of_failure hfailure found hmem] at hend
      cases hend
  obtain ⟨front, hscan, htiling⟩ := tiling_of_scan hfailure
  have hwords : ∀ t ∈ front, Word t.kind t.lexeme := by
    intro t ht
    refine scan_words code t ?_ (htiling.mem t ht).1
    rw [hscan]
    exact List.mem_append_left _ ht
  rw [hscan, beforeEnd_append_endMark htiling.isEnd_eq_false] at hbracket
  exact ⟨hend, unclosed_of_mem htiling hwords hbracket⟩

end Calculator
