import Calculator.Text.Blank
import Calculator.Text.Numeral
import Calculator.Token.Basic
/-!
# Writing tokens

Tokens are written with one space between them, and then the space is taken away where it does not help: inside
brackets, between a name and its bracket, before a comma and a `!`, around a `^` and behind a `√`.  The seven passes run
one after the other over the whole text, so lexemes that hold blanks are closed up by the same rules, and a `^` that
lost the blank before it to the `^` in front keeps the one behind it.
-/
namespace Calculator

/-- Take away the blanks behind a mark; `closing` says that the mark has just been passed. -/
def closeBehind (mark : Char) (closing : Bool) : Text → Text
  | [] => []
  | c :: rest =>
    if closing && isBlank c then closeBehind mark true rest
    else c :: closeBehind mark (c == mark) rest

/-- Take away the blanks before a mark; `held` are the blanks just passed, which wait for what follows. -/
def closeBefore (mark : Char) (held : Text) : Text → Text
  | [] => held
  | c :: rest =>
    if isBlank c then closeBefore mark (held ++ [c]) rest
    else if c = mark then c :: closeBefore mark [] rest
    else held ++ c :: closeBefore mark [] rest

/-- Take away the blanks between a name and a bracket; `named` says that the last character that is not blank can end a
name. -/
def closeCalls (named : Bool) (held : Text) : Text → Text
  | [] => held
  | c :: rest =>
    if isBlank c then closeCalls named (held ++ [c]) rest
    else if named ∧ c = '(' then c :: closeCalls false [] rest
    else held ++ c :: closeCalls (isNameChar c) [] rest

/-- Take away the blanks around a `^` that has some on both sides; `closing` says that one has just been passed, and its
blanks are no other's. -/
def closeCarets (closing : Bool) (held : Text) : Text → Text
  | [] => held
  | c :: rest =>
    if isBlank c then if closing then closeCarets true [] rest else closeCarets false (held ++ [c]) rest
    else if c = '^' ∧ held ≠ [] ∧ rest.head?.any isBlank then c :: closeCarets true [] rest
    else held ++ c :: closeCarets false [] rest

/-- The tokens of an expression as one text. -/
def joinTokens (tokens : List Token) : Text :=
  let spaced := [' '].intercalate ((tokens.filter (!·.isEnd)).map (·.lexeme))
  let bracketed := closeBefore ')' [] (closeBehind '(' false spaced)
  let listed := closeBefore ',' [] (closeCalls false [] bracketed)
  closeBehind '√' false (closeBefore '!' [] (closeCarets false [] listed))

end Calculator
