import Calculator.Proofs.Expr.Run
import Calculator.Proofs.Token.Words
/-!
# Errors in reading order

Whether a row of tokens is an expression, and where it first goes wrong, does not depend on the strength of the
operators.  A reader that only knows whether a value or an operator must come next, and which brackets are open, goes
wrong at the same token as the parser and for the same reason.  Where the parser closes the levels around a value one by
one, looking for one that a token belongs to, only the brackets among them can refuse it (`stepBehind_agree`).
-/
namespace Calculator

/-! ## The reader -/

/-- An open bracket, which is a group or the bracket of a call. -/
structure Bracket where
  opening : Token
  inCall : Bool

inductive Expected where
  | operand | operator

/-- All that the reader knows. -/
structure Reader where
  expected : Expected
  /-- The open brackets, the innermost one first. -/
  brackets : List Bracket
  /-- The kind of the token directly before. -/
  previous : Option TokenKind

namespace Reader

def initial : Reader := ⟨.operand, [], none⟩

/-- The bracket of a call stands directly before. -/
def afterCallBracket (r : Reader) : Bool := r.previous == some .bracketOpen && r.brackets.head?.any Bracket.inCall

/-- A token where an operand is expected. -/
def operand (r : Reader) (t : Token) : Except ParseFailure Reader :=
  match t.kind with
  | .number | .identifier => .ok ⟨.operator, r.brackets, some t.kind⟩
  | .bracketOpen => .ok ⟨.operand, ⟨t, false⟩ :: r.brackets, some t.kind⟩
  | .plus | .minus | .root => .ok ⟨.operand, r.brackets, some t.kind⟩
  | .bracketClose =>
    if r.afterCallBracket then .ok ⟨.operator, r.brackets.tail, some t.kind⟩ else .error (atToken .valueExpected t)
  | _ => .error (atToken .valueExpected t)

/-- What is wrong with a token that is no operator and closes no bracket. -/
def misplaced (r : Reader) (t : Token) : ParseFailure :=
  match r.brackets with
  | [] => atToken .trailing t
  | bracket :: _ => atToken (.closingExpected bracket.inCall) t

/-- A token where an operator is expected. -/
def operator (r : Reader) (t : Token) : Except ParseFailure Reader :=
  match t.kind with
  | .bang => .ok ⟨.operator, r.brackets, some t.kind⟩
  | .caret | .star | .slash | .percent | .plus | .minus => .ok ⟨.operand, r.brackets, some t.kind⟩
  | .bracketOpen =>
    if r.previous = some .identifier then .ok ⟨.operand, ⟨t, true⟩ :: r.brackets, some t.kind⟩
    else .error (r.misplaced t)
  | .bracketClose =>
    match r.brackets with
    | [] => .error (r.misplaced t)
    | _ :: outer => .ok ⟨.operator, outer, some t.kind⟩
  | .comma =>
    match r.brackets with
    | ⟨_, true⟩ :: _ => .ok ⟨.operand, r.brackets, some t.kind⟩
    | _ => .error (r.misplaced t)
  | _ => .error (r.misplaced t)

def token (r : Reader) (t : Token) : Except ParseFailure Reader :=
  match r.expected with
  | .operand => r.operand t
  | .operator => r.operator t

def atEnd (r : Reader) (t : Token) : Except ParseFailure Unit :=
  match r.expected, r.brackets with
  | .operand, _ => .error (atToken .unexpectedEnd t)
  | .operator, [] => .ok ()
  | .operator, bracket :: _ => .error (.grammar ⟨.unclosed, bracket.opening.position, t⟩)

/-- The rest of a source, whose last token before it stops at `stop`. -/
def read (failure : Option ScanError) (r : Reader) (stop : Int) : List Token → Except ParseFailure Unit
  | [] =>
    match failure with
    | some e => .error (.scan e)
    | none => r.atEnd (.endMark stop)
  | t :: rest =>
    if t.isEnd then r.atEnd t
    else
      match r.token t with
      | .error e => .error e
      | .ok next => read failure next t.stop rest

end Reader

/-- The outcome of a source in reading order: it is accepted, or the first error. -/
def readThrough (source : Source) : Except ParseFailure Unit :=
  Reader.initial.read source.failure 0 source.tokens

/-! ## Reader and parser side by side -/

def Level.bracket? : Level → Option Bracket
  | group opening => some ⟨opening, false⟩
  | argument _ opening _ => some ⟨opening, true⟩
  | operand _ | rightOperand .. => none

def brackets (levels : List Level) : List Bracket := levels.filterMap Level.bracket?

/-- `Abreast s r`: the parser with the state `s` and the reader `r` have read the same tokens. -/
inductive Abreast : ParserState → Reader → Prop
  | nothing {levels : List Level} {previous : Option TokenKind} :
      Reader.afterCallBracket ⟨.operand, brackets levels, previous⟩ = false →
      Abreast ⟨levels, .nothing⟩ ⟨.operand, brackets levels, previous⟩
  | name {levels : List Level} {t : Token} :
      Abreast ⟨levels, .name t⟩ ⟨.operator, brackets levels, some .identifier⟩
  | callOpened {levels : List Level} {name opening : Token} :
      Abreast ⟨levels, .callOpened name opening⟩ ⟨.operand, ⟨opening, true⟩ :: brackets levels, some .bracketOpen⟩
  | value {levels : List Level} {e : Expr} {previous : Option TokenKind} :
      previous ≠ some .identifier → Abreast ⟨levels, .value e⟩ ⟨.operator, brackets levels, previous⟩

/-- One token later, both are abreast again or have met the same error. -/
inductive Agree : Except ParseFailure ParserState → Except ParseFailure Reader → Prop
  | ok {s : ParserState} {r : Reader} : Abreast s r → Agree (.ok s) (.ok r)
  | error {e : ParseFailure} : Agree (.error e) (.error e)

variable {t : Token} {levels : List Level} {previous : Option TokenKind} {value : Expr}

theorem abreast_nothing (h : previous ≠ some .bracketOpen) :
    Abreast ⟨levels, .nothing⟩ ⟨.operand, brackets levels, previous⟩ := by
  refine .nothing ?_
  rw [Reader.afterCallBracket, beq_false_of_ne h, Bool.false_and]

theorem startValue_agree {r : Reader} (hr : r.brackets = brackets levels) (hread : t.Readable)
    (hclose : t.kind = .bracketClose → r.afterCallBracket = false) : Agree (startValue levels t) (r.operand t) := by
  obtain ⟨expected, bs, previous⟩ := r
  obtain rfl : bs = brackets levels := hr
  unfold startValue Reader.operand
  cases hk : t.kind with
  | number =>
    obtain ⟨x, hx⟩ := hread hk
    simp only [hx]
    exact .ok (.value (by decide))
  | identifier => exact .ok .name
  | bracketOpen => exact .ok (@Abreast.nothing (.group t :: levels) _ rfl)
  | plus => exact .ok (@abreast_nothing (.operand .pos :: levels) _ (by decide))
  | minus => exact .ok (@abreast_nothing (.operand .neg :: levels) _ (by decide))
  | root => exact .ok (@abreast_nothing (.operand .sqrt :: levels) _ (by decide))
  | bracketClose =>
    simp only [hclose hk]
    exact .error
  | _ => exact .error

theorem applyTrailing_agree {op : Operation} (h : taken? levels t = some op) :
    Agree (.ok (applyTrailing op value levels)) (Reader.operator ⟨.operator, brackets levels, previous⟩ t) := by
  have htrailing := (taken?_eq_some.1 h).1
  unfold Reader.operator
  cases hk : t.kind <;> rw [hk] at htrailing <;> cases htrailing
  case bang => exact .ok (.value (by decide))
  all_goals exact .ok (@abreast_nothing (.rightOperand _ value :: levels) _ (by decide))

theorem trailing?_of_taken?_none (hleast : leastStrength levels = 0) (h : taken? levels t = none) :
    t.kind.trailing? = none := by
  cases hk : t.kind.trailing? with
  | none => rfl
  | some op =>
    have hlt := taken?_eq_none.1 h op hk
    rw [hleast] at hlt
    exact absurd hlt (Nat.not_lt_zero _)

theorem operator_misplaced {r : Reader} (h : t.kind.trailing? = none)
    (hopen : t.kind = .bracketOpen → r.previous ≠ some .identifier) (hclose : t.kind ≠ .bracketClose)
    (hcomma : t.kind ≠ .comma) : r.operator t = .error (r.misplaced t) := by
  unfold Reader.operator
  cases hk : t.kind <;> rw [hk] at h <;> try cases h
  case bracketOpen => simp only [hopen hk, if_false]
  case bracketClose => exact absurd hk hclose
  case comma => exact absurd hk hcomma

/-- **Behind a value**, whatever levels have to be closed for it. -/
theorem stepBehind_agree (hopen : t.kind = .bracketOpen → previous ≠ some .identifier) :
    ∀ (value : Expr) (levels : List Level),
      Agree (stepBehind t value levels) (Reader.operator ⟨.operator, brackets levels, previous⟩ t)
  | value, [] => by
    rw [stepBehind]
    cases htaken : taken? [] t with
    | some op => exact applyTrailing_agree htaken
    | none =>
      have htrailing : t.kind.trailing? = none := trailing?_of_taken?_none rfl htaken
      by_cases hclose : t.kind = .bracketClose
      · simp only [Reader.operator, hclose]
        exact .error
      by_cases hcomma : t.kind = .comma
      · simp only [Reader.operator, hcomma]
        exact .error
      rw [operator_misplaced htrailing hopen hclose hcomma]
      exact .error
  | value, .operand op :: outer => by
    rw [stepBehind]
    cases htaken : taken? (.operand op :: outer) t with
    | some taken => exact applyTrailing_agree htaken
    | none => exact stepBehind_agree hopen (.unary op value) outer
  | value, .rightOperand op left :: outer => by
    rw [stepBehind]
    cases htaken : taken? (.rightOperand op left :: outer) t with
    | some taken => exact applyTrailing_agree htaken
    | none => exact stepBehind_agree hopen (.binary op left value) outer
  | value, .group opening :: outer => by
    rw [stepBehind]
    cases htaken : taken? (.group opening :: outer) t with
    | some op => exact applyTrailing_agree htaken
    | none =>
      have htrailing : t.kind.trailing? = none := trailing?_of_taken?_none rfl htaken
      by_cases hclose : t.kind = .bracketClose
      · simp only [Reader.operator, hclose]
        exact .ok (.value (by decide))
      by_cases hcomma : t.kind = .comma
      · simp only [Reader.operator, hcomma]
        exact .error
      rw [operator_misplaced htrailing hopen hclose hcomma]
      simp only [hclose, if_false]
      exact .error
  | value, .argument name opening before :: outer => by
    rw [stepBehind]
    cases htaken : taken? (.argument name opening before :: outer) t with
    | some op => exact applyTrailing_agree htaken
    | none =>
      have htrailing : t.kind.trailing? = none := trailing?_of_taken?_none rfl htaken
      by_cases hclose : t.kind = .bracketClose
      · simp only [Reader.operator, hclose]
        exact .ok (.value (by decide))
      by_cases hcomma : t.kind = .comma
      · simp only [Reader.operator, hcomma]
        exact .ok (@abreast_nothing (.argument name opening (value :: before) :: outer) _ (by decide))
      rw [operator_misplaced htrailing hopen hclose hcomma]
      simp only
      exact .error

theorem finishBehind_eq (t : Token) : ∀ (value : Expr) (levels : List Level) (previous : Option TokenKind),
    (finishBehind t value levels).map (fun _ => ()) = Reader.atEnd ⟨.operator, brackets levels, previous⟩ t
  | _, [], _ => rfl
  | _, .group _ :: _, _ => rfl
  | _, .argument .. :: _, _ => rfl
  | value, .operand op :: outer, previous => finishBehind_eq t (.unary op value) outer previous
  | value, .rightOperand op left :: outer, previous => finishBehind_eq t (.binary op left value) outer previous

/-! ## One token, and all tokens -/

namespace Abreast

variable {s : ParserState} {r : Reader}

/-- **One token** keeps parser and reader abreast, or both stop at it with the same error. -/
theorem step (h : Abreast s r) (hread : t.Readable) : Agree (s.step t) (r.token t) := by
  cases h with
  | nothing hfresh => exact startValue_agree rfl hread fun _ => hfresh
  | @name levels name =>
    by_cases hk : t.kind = .bracketOpen
    · simp only [ParserState.step, Reader.token, Reader.operator, hk, if_true]
      exact .ok .callOpened
    · simp only [ParserState.step, hk, if_false, Reader.token]
      exact stepBehind_agree (fun h => absurd h hk) _ levels
  | @callOpened levels name opening =>
    by_cases hk : t.kind = .bracketClose
    · simp only [ParserState.step, Reader.token, Reader.operand, hk, if_true]
      exact .ok (.value (by decide))
    · simp only [ParserState.step, hk, if_false, Reader.token]
      exact @startValue_agree t (.argument name opening [] :: levels) _ rfl hread fun h => absurd h hk
  | value hprevious => exact stepBehind_agree (fun _ => hprevious) _ _

theorem finish (h : Abreast s r) (t : Token) : (s.finish t).map (fun _ => ()) = r.atEnd t := by
  cases h with
  | nothing => rfl
  | name => exact finishBehind_eq t _ _ _
  | callOpened => rfl
  | value => exact finishBehind_eq t _ _ _

/-- **The rest of the tokens.** -/
theorem run_eq_read (failure : Option ScanError) : ∀ (ts : List Token) {s : ParserState} {r : Reader} (stop : Int),
    Abreast s r → (∀ t ∈ ts, t.Readable) → (s.run none failure stop ts).map (fun _ => ()) = r.read failure stop ts
  | [], s, r, stop, h, _ => by
    cases failure with
    | some e => rfl
    | none => exact h.finish (.endMark stop)
  | t :: rest, s, r, stop, h, hread => by
    rw [ParserState.run, ParserState.checkDepth_ok (within_none _), Reader.read]
    cases he : t.isEnd with
    | true => exact h.finish t
    | false =>
      simp only [Bool.false_eq_true, if_false]
      have hagree := h.step (hread t List.mem_cons_self)
      generalize s.step t = parsed at hagree ⊢
      generalize r.token t = read at hagree ⊢
      cases hagree with
      | error => rfl
      | ok hnext => exact run_eq_read failure rest t.stop hnext fun t ht => hread t (List.mem_cons_of_mem _ ht)

end Abreast

/-! ## The limit -/

theorem ParserState.run_some_or (n : Nat) (failure : Option ScanError) :
    ∀ (ts : List Token) (s : ParserState) (stop : Int), s.run (some n) failure stop ts = s.run none failure stop ts ∨
      ∃ t, s.run (some n) failure stop ts = .error (atToken (.tooDeep n) t)
  | [], s, stop => by
    cases failure with
    | some e => exact .inl rfl
    | none =>
      by_cases hd : s.depthAt (.endMark stop) ≤ n
      · refine .inl ?_
        simp only [run, checkDepth_ok (within_some.2 hd), checkDepth_ok (within_none _)]
      · refine .inr ⟨.endMark stop, ?_⟩
        simp only [run, checkDepth_error (Nat.not_le.1 hd)]
  | t :: rest, s, stop => by
    by_cases hd : s.depthAt t ≤ n
    · simp only [run, checkDepth_ok (within_some.2 hd), checkDepth_ok (within_none _)]
      split
      · exact .inl rfl
      · split
        · exact .inl rfl
        · exact run_some_or n failure rest _ t.stop
    · refine .inr ⟨t, ?_⟩
      simp only [run, checkDepth_error (Nat.not_le.1 hd)]

/-- **The outcome of parsing, in reading order**, for a source whose number tokens have numbers. -/
theorem parseWithin_outcome (n : Nat) (source : Source) (hread : ∀ t ∈ source.tokens, t.Readable) :
    (parseWithin (some n) source).map (fun _ => ()) = readThrough source ∨
      ∃ t, parseWithin (some n) source = .error (atToken (.tooDeep n) t) := by
  rcases ParserState.run_some_or n source.failure source.tokens .initial 0 with hsame | hdeep
  · refine .inl ?_
    rw [parseWithin, hsame]
    exact Abreast.run_eq_read source.failure source.tokens 0 (@abreast_nothing [] none (by decide)) hread
  · exact .inr hdeep

/-- **The first error in reading order.**  Unless an expression is nested too deep, it is accepted, or found to be
wrong at a place and for a reason, just as by the reader that knows no operator from another. -/
theorem parse_eq_readThrough (code : Text)
    (h : ∀ limit position found, parse (scan code) ≠ .error (.grammar ⟨.tooDeep limit, position, found⟩)) :
    (parse (scan code)).map (fun _ => ()) = readThrough (scan code) := by
  rcases parseWithin_outcome nestingLimit (scan code) (scan_readable code) with houtcome | ⟨t, hdeep⟩
  · exact houtcome
  · exact absurd hdeep (h nestingLimit t.position t)

/-- In `f(x,)` both stop at the closing bracket. -/
theorem parse_eq_readThrough_missing_argument :
    parse (scan ['f', '(', 'x', ',', ')']) = .error (atToken .valueExpected ⟨.bracketClose, [')'], 4⟩) ∧
      (parse (scan ['f', '(', 'x', ',', ')'])).map (fun _ => ()) = readThrough (scan ['f', '(', 'x', ',', ')']) := by
  have hparse : parse (scan ['f', '(', 'x', ',', ')']) = .error (atToken .valueExpected ⟨.bracketClose, [')'], 4⟩) := by
    rfl
  exact ⟨hparse, parse_eq_readThrough _ (by rw [hparse]; nofun)⟩

end Calculator
