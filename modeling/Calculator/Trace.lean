import Calculator.Answer
import Calculator.Expr.Text
import Calculator.Token.Spacing
/-!
# Traces

What happens while an expression is answered, as a list of records: the tokens as they are looked at, the tree once it
is complete, every call as it is completed, and the failure that ended it.  A trace is computed beside the answer and
has no influence on it.
-/
namespace Calculator

inductive Record where
  | evaluating (code : Text)
  | read (t : Token)
  /-- The tokens of a whole expression, and its tree. -/
  | parsed (tokens : List Token) (tree : Expr)
  | called (c : CallRecord)
  | failed (code : Text) (f : Failure)

namespace Record

/-- The part of the program that a record belongs to. -/
def origin : Record → Text
  | evaluating _ => "exprcalc".toList
  | read _ => "exprcalc.parser".toList
  | parsed .. => "exprcalc.parser".toList
  | called _ => "exprcalc.runtime".toList
  | failed .. => "repl".toList

def message : Record → Text
  | evaluating code => "Evaluating ".toList ++ quoted code
  | read t => "Read token ".toList ++ t.shown ++ " at ".toList ++ signedNumeral t.position
  | parsed tokens tree => "Parsed expression ".toList ++ quoted (joinTokens tokens) ++ ": ".toList ++ tree.text
  | called c =>
    c.function ++ '(' :: [',', ' '].intercalate (c.arguments.map (·.literalText)) ++ ") = ".toList ++ c.result.text
  | failed code f => "Failed to evaluate ".toList ++ quoted code ++ ": ".toList ++ f.category ++ ' ' :: f.kind

/-- A record as a line of the log. -/
def line (r : Record) : Text := "DEBUG ".toList ++ r.origin ++ ": ".toList ++ r.message ++ ['\n']

end Record

variable [Platform]

/-- The records of a tree that is complete. -/
def traceTree (r : Registry) (code : Text) (tree : Expr) : List Record :=
  (calls r tree).map .called ++
    match evaluate r tree with
    | .ok _ => []
    | .error e => [.failed code (.evaluation e)]

/-- The records of an expression. -/
def trace (r : Registry) (code : Text) : List Record :=
  let source := scan code
  .evaluating code :: (lookedAt source).map .read ++
    match parse source with
    | .ok tree => .parsed source.tokens tree :: traceTree r code tree
    | .error e => [.failed code (.parsing e)]

/-- The log of an expression. -/
def log (r : Registry) (code : Text) : Text := (trace r code).flatMap Record.line

end Calculator
