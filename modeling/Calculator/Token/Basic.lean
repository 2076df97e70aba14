import Calculator.Text.Basic
/-!
# Tokens

An expression is made of numbers, names, operators, brackets and commas, and ends with an end mark.  A token keeps the
text it was read from and the place where that text starts.  A place is an integer: tokens read from a text have places
in it, but tokens made by hand may have any.
-/
namespace Calculator

inductive TokenKind where
  | number | identifier
  | plus | minus | star | slash | percent | caret | bang | root
  | bracketOpen | bracketClose | comma
  | exprEnd
deriving DecidableEq

namespace TokenKind

/-- The name of a kind in logs. -/
def label : TokenKind → Text
  | number => "NUMBER".toList
  | identifier => "IDENTIFIER".toList
  | plus => "PLUS".toList
  | minus => "MINUS".toList
  | star => "STAR".toList
  | slash => "SLASH".toList
  | percent => "PERCENT".toList
  | caret => "CARET".toList
  | bang => "BANG".toList
  | root => "ROOT".toList
  | bracketOpen => "BRACKET_OPEN".toList
  | bracketClose => "BRACKET_CLOSE".toList
  | comma => "COMMA".toList
  | exprEnd => "EXPR_END".toList

/-- The kind of a token that is always one and the same character. -/
def ofSymbol? : Char → Option TokenKind
  | '+' => some plus
  | '-' => some minus
  | '*' => some star
  | '/' => some slash
  | '%' => some percent
  | '^' => some caret
  | '!' => some bang
  | '√' => some root
  | '(' => some bracketOpen
  | ')' => some bracketClose
  | ',' => some comma
  | _ => none

end TokenKind

structure Token where
  kind : TokenKind
  lexeme : Text
  position : Int
deriving DecidableEq

namespace Token

/-- The mark behind the last token. -/
def endMark (position : Int) : Token := ⟨.exprEnd, [], position⟩

def isEnd (t : Token) : Bool := t.kind == .exprEnd

/-- The place just behind a token. -/
def stop (t : Token) : Int := t.position + t.lexeme.length

/-- A token as logs show it. -/
def shown (t : Token) : Text := '<' :: t.kind.label ++ '>' :: t.lexeme

end Token
end Calculator
