import Calculator.Decimal.Reading
import Calculator.Expr.Basic
import Calculator.Token.Source
/-!
# Parsing

The parser reads tokens one at a time, and its state says all it needs to know about those behind it: which levels are
open, and what it has at the moment.  A level is a place in which a value is being built: the expression as a whole, the
inside of a bracket, an argument of a call, the operand of a leading operator, the right operand of an operator between
two.  Behind a value, an operator that is strong enough for the innermost level is taken into it; anything else closes
the level, gives its value to the level around it, and is looked at again there (`stepBehind`).

Three rules follow from reading this way.  The first token that cannot go on is the one an error is about, and no token
behind it is looked at.  No token is read in more levels than the limit: the one that would be is the one the error is
about.  And every token is handled once, so there is nothing to run out of.
-/
namespace Calculator

/-! ## Errors -/

/-- Why a row of tokens is no expression. -/
inductive SyntaxFault where
  /-- One level too many was about to be opened. -/
  | tooDeep (limit : Nat)
  /-- The end came where a value was expected. -/
  | unexpectedEnd
  /-- Something else came where a value was expected. -/
  | valueExpected
  /-- Something came that neither goes on with a bracket nor closes it. -/
  | closingExpected (inCall : Bool)
  /-- The end came inside a bracket. -/
  | unclosed
  /-- Something came behind a whole expression. -/
  | trailing
deriving DecidableEq

/-- A fault, the place it points to, and the token at which it was noticed. -/
structure SyntaxError where
  fault : SyntaxFault
  position : Int
  found : Token
deriving DecidableEq

inductive ParseFailure where
  /-- The source of the tokens ends in an error, and the parser got there. -/
  | scan (e : ScanError)
  | grammar (e : SyntaxError)
  /-- A number token that is no number. -/
  | unreadable (lexeme : Text)
deriving DecidableEq

/-- An error that points to the token at which it is noticed. -/
def atToken (fault : SyntaxFault) (t : Token) : ParseFailure := .grammar ⟨fault, t.position, t⟩

/-! ## States -/

/-- A level inside the expression, with what is known of the node it will be a part of. -/
inductive Level where
  | group (opening : Token)
  /-- An argument, and the arguments before it, the last one first. -/
  | argument (name opening : Token) (before : List Expr)
  | operand (op : UnaryOp)
  | rightOperand (op : BinaryOp) (left : Expr)

/-- The least strength of an operator that is taken into a value at a level. -/
def Level.leastStrength : Level → Nat
  | group _ | argument .. => 0
  | operand op => (Operation.unary op).operandStrength
  | rightOperand op _ => (Operation.binary op).operandStrength

/-- The least strength at the innermost of some levels; the expression as a whole takes any operator. -/
def leastStrength : List Level → Nat
  | [] => 0
  | level :: _ => level.leastStrength

/-- What the parser has at the moment. -/
inductive Focus where
  /-- Nothing: a value must follow. -/
  | nothing
  /-- A name: a bracket makes it a call. -/
  | name (t : Token)
  /-- The bracket of a call: it may be closed at once. -/
  | callOpened (name opening : Token)
  /-- A value: an operator, a comma or a bracket may follow. -/
  | value (e : Expr)

/-- The open levels, the innermost one first and without the expression as a whole, and the focus. -/
structure ParserState where
  levels : List Level
  focus : Focus

namespace ParserState

/-- Before the first token. -/
def initial : ParserState := ⟨[], .nothing⟩

/-- How many levels are open when a token is read, with the expression as a whole.  Unless it closes the call at once,
the token behind the bracket of a call is the first one of an argument. -/
def depthAt (s : ParserState) (t : Token) : Nat :=
  match s.focus with
  | .callOpened .. => if t.kind = .bracketClose then s.levels.length + 1 else s.levels.length + 2
  | _ => s.levels.length + 1

end ParserState

/-! ## Where a value is expected -/

/-- A token that starts a value. -/
def startValue (levels : List Level) (t : Token) : Except ParseFailure ParserState :=
  match t.kind with
  | .number =>
    match readNumber? t.lexeme with
    | some x => .ok ⟨levels, .value (.literal x)⟩
    | none => .error (.unreadable t.lexeme)
  | .identifier => .ok ⟨levels, .name t⟩
  | .bracketOpen => .ok ⟨.group t :: levels, .nothing⟩
  | kind =>
    match kind.leading? with
    | some op => .ok ⟨.operand op :: levels, .nothing⟩
    | none => .error (atToken .valueExpected t)

/-! ## Behind a value -/

/-- The operator of a token behind a value, if it is strong enough for the innermost level. -/
def taken? (levels : List Level) (t : Token) : Option Operation :=
  t.kind.trailing?.filter fun op => leastStrength levels ≤ op.strength

/-- A value with an operator behind it. -/
def applyTrailing (op : Operation) (value : Expr) (levels : List Level) : ParserState :=
  match op with
  | .unary op => ⟨levels, .value (.unary op value)⟩
  | .binary op => ⟨.rightOperand op value :: levels, .nothing⟩

/-- A token behind a value.  An operand that it does not belong to is complete, and then the token is looked at again
behind the node that the operand completes. -/
def stepBehind (t : Token) : Expr → List Level → Except ParseFailure ParserState
  | value, [] =>
    match taken? [] t with
    | some op => .ok (applyTrailing op value [])
    | none => .error (atToken .trailing t)
  | value, level :: outer =>
    match taken? (level :: outer) t with
    | some op => .ok (applyTrailing op value (level :: outer))
    | none =>
      match level with
      | .group _ =>
        if t.kind = .bracketClose then .ok ⟨outer, .value value⟩
        else .error (atToken (.closingExpected false) t)
      | .argument name opening before =>
        match t.kind with
        | .comma => .ok ⟨.argument name opening (value :: before) :: outer, .nothing⟩
        | .bracketClose => .ok ⟨outer, .value (.call name.lexeme (value :: before).reverse (some name.position))⟩
        | _ => .error (atToken (.closingExpected true) t)
      | .operand op => stepBehind t (.unary op value) outer
      | .rightOperand op left => stepBehind t (.binary op left value) outer

/-- The end behind a value. -/
def finishBehind (t : Token) : Expr → List Level → Except ParseFailure Expr
  | value, [] => .ok value
  | _, .group opening :: _ => .error (.grammar ⟨.unclosed, opening.position, t⟩)
  | _, .argument _ opening _ :: _ => .error (.grammar ⟨.unclosed, opening.position, t⟩)
  | value, .operand op :: outer => finishBehind t (.unary op value) outer
  | value, .rightOperand op left :: outer => finishBehind t (.binary op left value) outer

/-! ## One token -/

namespace ParserState

/-- One token that is no end mark. -/
def step (s : ParserState) (t : Token) : Except ParseFailure ParserState :=
  match s.focus with
  | .nothing => startValue s.levels t
  | .name n =>
    if t.kind = .bracketOpen then .ok ⟨s.levels, .callOpened n t⟩
    else stepBehind t (.constant n.lexeme (some n.position)) s.levels
  | .callOpened name opening =>
    if t.kind = .bracketClose then .ok ⟨s.levels, .value (.call name.lexeme [] (some name.position))⟩
    else startValue (.argument name opening [] :: s.levels) t
  | .value e => stepBehind t e s.levels

/-- The end mark. -/
def finish (s : ParserState) (t : Token) : Except ParseFailure Expr :=
  match s.focus with
  | .nothing => .error (atToken .unexpectedEnd t)
  | .name n => finishBehind t (.constant n.lexeme (some n.position)) s.levels
  | .callOpened .. => .error (atToken .unexpectedEnd t)
  | .value e => finishBehind t e s.levels

/-- A token that would be read in more levels than the limit, if there is one. -/
def checkDepth (limit : Option Nat) (s : ParserState) (t : Token) : Except ParseFailure Unit :=
  match limit.filter (· < s.depthAt t) with
  | some limit => .error (atToken (.tooDeep limit) t)
  | none => .ok ()

/-! ## Whole sources -/

/-- The rest of a source, whose last token before it stops at `stop`.  What follows an end mark is not looked at. -/
def run (limit : Option Nat) (failure : Option ScanError) (s : ParserState) (stop : Int) :
    List Token → Except ParseFailure Expr
  | [] =>
    match failure with
    | some e => .error (.scan e)
    | none =>
      match s.checkDepth limit (.endMark stop) with
      | .error e => .error e
      | .ok _ => s.finish (.endMark stop)
  | t :: rest =>
    match s.checkDepth limit t with
    | .error e => .error e
    | .ok _ =>
      if t.isEnd then s.finish t
      else
        match s.step t with
        | .error e => .error e
        | .ok next => run limit failure next t.stop rest

/-- The tokens that `run` looks at, in order. -/
def looked (limit : Option Nat) (failure : Option ScanError) (s : ParserState) (stop : Int) : List Token → List Token
  | [] => if failure.isSome then [] else [.endMark stop]
  | t :: rest =>
    match s.checkDepth limit t with
    | .error _ => [t]
    | .ok _ =>
      if t.isEnd then [t]
      else
        match s.step t with
        | .error _ => [t]
        | .ok next => t :: looked limit failure next t.stop rest

end ParserState

/-- The tree of a source of tokens, perhaps with a limit to the open levels. -/
def parseWithin (limit : Option Nat) (source : Source) : Except ParseFailure Expr :=
  ParserState.initial.run limit source.failure 0 source.tokens

/-- How many levels may be open. -/
def nestingLimit : Nat := 200

/-- The tree of a source of tokens. -/
def parse (source : Source) : Except ParseFailure Expr := parseWithin (some nestingLimit) source

/-- The tokens that the parser looks at, in order. -/
def lookedAt (source : Source) : List Token :=
  ParserState.initial.looked (some nestingLimit) source.failure 0 source.tokens

end Calculator
