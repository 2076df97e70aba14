import Calculator.Text.Blank
import Calculator.Text.Numeral
import Calculator.Token.Source
/-!
# Cutting a text into tokens

The scanner is an automaton that takes one character at a time.  It is either between tokens or inside a number or a
name, and a character that can lengthen the token at hand always does: there is no going back, so `2e` followed by
anything but an exponent is a faulty number and not a `2` before a name.  Only a point needs a look at the character
behind it, since it starts a number just before a digit.
-/
namespace Calculator

/-! ## Number literals

Digits with at most one point among or around them, then perhaps a letter `e`, a sign and digits. -/

/-- How far a number literal has come. -/
inductive LiteralPhase where
  | whole
  | fraction
  | exponentMark
  | exponentSign
  | exponent
deriving DecidableEq

namespace LiteralPhase

/-- The phase behind one more character, if it can be part of the literal. -/
def next? (phase : LiteralPhase) (c : Char) : Option LiteralPhase :=
  match phase with
  | whole => if c.isDigit then some whole else if c = '.' then some fraction else exponentMark? c
  | fraction => if c.isDigit then some fraction else exponentMark? c
  | exponentMark => if c.isDigit then some exponent else if c = '+' ∨ c = '-' then some exponentSign else none
  | exponentSign => if c.isDigit then some exponent else none
  | exponent => if c.isDigit then some exponent else none
where
  exponentMark? (c : Char) : Option LiteralPhase := if c = 'e' ∨ c = 'E' then some exponentMark else none

/-- Whether the literal may end here.  An exponent must not be left without a digit. -/
def isComplete : LiteralPhase → Bool
  | whole | fraction | exponent => true
  | exponentMark | exponentSign => false

/-- The phase behind the first character of a literal, given the character that follows. -/
def start? (c : Char) (next : Option Char) : Option LiteralPhase :=
  if c.isDigit then some whole else if c = '.' ∧ next.any Char.isDigit then some fraction else none

end LiteralPhase

/-! ## The automaton -/

/-- What the scanner is inside of: the place where it starts and its characters so far, the last one first. -/
inductive Pending where
  | between
  | number (phase : LiteralPhase) (start : Nat) (read : Text)
  | name (start : Nat) (read : Text)

namespace Pending

/-- The token at hand with one more character, if it can have it. -/
def absorb? : Pending → Char → Option Pending
  | between, _ => none
  | number phase start read, c => (phase.next? c).map (number · start (c :: read))
  | name start read, c => if isNameChar c then some (name start (c :: read)) else none

/-- The token at hand, completed. -/
def close : Pending → Except ScanError (List Token)
  | between => .ok []
  | number phase start read =>
    if phase.isComplete then .ok [⟨.number, read.reverse, start⟩]
    else .error ⟨.invalidNumber read.reverse, start⟩
  | name start read => .ok [⟨.identifier, read.reverse, start⟩]

/-- A point must not stand directly behind a number that cannot have it. -/
def refuses : Pending → Char → Bool
  | number .., c => c == '.'
  | _, _ => false

end Pending

/-- What a character starts between two tokens: a whole token, or a token at hand. -/
def begin (position : Nat) (c : Char) (next : Option Char) : Except ScanError (List Token × Pending) :=
  if isBlank c then .ok ([], .between)
  else
    match LiteralPhase.start? c next with
    | some phase => .ok ([], .number phase position [c])
    | none =>
      if isLetter c then .ok ([], .name position [c])
      else
        match TokenKind.ofSymbol? c with
        | some kind => .ok ([⟨kind, [c], position⟩], .between)
        | none => .error ⟨.unexpectedCharacter c, position⟩

/-- One character: the tokens that it completes, and how it goes on. -/
def scanStep (pending : Pending) (position : Nat) (c : Char) (next : Option Char) :
    List Token × Except ScanError Pending :=
  match pending.absorb? c with
  | some longer => ([], .ok longer)
  | none =>
    match pending.close with
    | .error e => ([], .error e)
    | .ok closed =>
      if pending.refuses c then (closed, .error ⟨.unexpectedCharacter c, position⟩)
      else
        match begin position c next with
        | .error e => (closed, .error e)
        | .ok (started, inside) => (closed ++ started, .ok inside)

/-- The tokens of the rest of a text, from a place inside or between tokens. -/
def scanFrom (pending : Pending) (position : Nat) : Text → Source
  | [] =>
    match pending.close with
    | .error e => ⟨[], some e⟩
    | .ok closed => ⟨closed ++ [.endMark position], none⟩
  | c :: rest =>
    match scanStep pending position c rest.head? with
    | (done, .ok inside) => (scanFrom inside (position + 1) rest).prepend done
    | (done, .error e) => ⟨done, some e⟩

/-- The tokens of a text, up to the end mark or to the first fault. -/
def scan (code : Text) : Source := scanFrom .between 0 code

end Calculator
