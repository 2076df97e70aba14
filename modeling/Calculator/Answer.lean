import Calculator.Report
import Calculator.Token.Scan
/-!
# Answers

From the text of an expression to its value, and to the text that a user is shown, which is the value or a report of
the failure.
-/
namespace Calculator

variable [Platform]

/-- The value of a source of tokens. -/
def calculateSource (r : Registry) (source : Source) : Except Failure Binary64 :=
  match parse source with
  | .error e => .error (.parsing e)
  | .ok tree =>
    match evaluate r tree with
    | .error e => .error (.evaluation e)
    | .ok x => .ok x

/-- The value of an expression. -/
def calculate (r : Registry) (code : Text) : Except Failure Binary64 := calculateSource r (scan code)

/-- What a user is shown. -/
structure Answer where
  success : Bool
  text : Text
deriving DecidableEq

/-- The answer to an expression. -/
def answer (r : Registry) (code : Text) : Answer :=
  match calculate r code with
  | .ok x => ⟨true, x.resultText⟩
  | .error f => ⟨false, f.render code⟩

end Calculator
