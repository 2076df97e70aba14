import Calculator.Failure
/-!
# Reports

What a user is shown of a failure: a line that names the stage and says what is wrong, and, if there is a place to point
to, an excerpt of the expression around it and a caret below that place.
-/
namespace Calculator

/-! ## Excerpts -/

/-- The characters from `start` up to `stop`.  A `stop` below zero counts from the end. -/
def slice (t : Text) (start : Nat) (stop : Int) : Text :=
  let stop := if stop < 0 then stop + t.length else stop
  (t.drop start).take (stop.toNat - start)

/-- Up to `context` characters on either side of a place, with dots for what is left out, and a line with a caret below
the place. -/
def excerpt (code : Text) (place context : Int) : Text × Text :=
  let start := max 0 (place - context)
  let stop := min (code.length : Int) (place + context)
  let cutBefore := decide (0 < start)
  let dots := "...".toList
  ((if cutBefore then dots else []) ++ slice code start.toNat stop ++ (if stop < code.length then dots else []),
    List.replicate (place - start + if cutBefore then 3 else 0).toNat ' ' ++ ['^'])

/-- How much of an expression a report shows on either side. -/
def reportContext : Int := 10

/-! ## Reports -/

inductive Stage where
  | engine | tokenizer | parser | runtime
deriving DecidableEq

def Stage.label : Stage → Text
  | engine => "Engine".toList
  | tokenizer => "Tokenizer".toList
  | parser => "Parser".toList
  | runtime => "Runtime".toList

structure Report where
  stage : Stage
  message : Text
  position : Option Int

namespace Report

/-- The lines of a report on an expression.  A place behind the expression is moved to its end. -/
def lines (r : Report) (code : Text) : List Text :=
  ('[' :: r.stage.label ++ " error] ".toList ++ r.message) ::
    match r.position with
    | none => []
    | some place =>
      let (text, caret) := excerpt code (min place code.length) reportContext
      [text, caret]

def render (r : Report) (code : Text) : Text := ['\n'].intercalate (r.lines code)

end Report

namespace Failure

def stage : Failure → Stage
  | parsing (.scan _) => .tokenizer
  | parsing _ => .parser
  | evaluation _ => .runtime

def report (f : Failure) : Report := ⟨f.stage, f.message, f.position?⟩

/-- What a user is shown of a failure of an expression. -/
def render (f : Failure) (code : Text) : Text := f.report.render code

end Failure
end Calculator
