import Calculator.Binary64.Arithmetic
import Calculator.Function.Basic
/-!
# Aggregates

Bodies for functions of any number of arguments that a user may register under names of his own.  The numbers are taken
from left to right, starting from the positive zero.
-/
namespace Calculator
namespace Aggregate

def sum (xs : List Binary64) : Binary64 := xs.foldl Binary64.add (.zero false)

/-- Twice the sum. -/
def twice (xs : List Binary64) : Binary64 := .mul (.ofInt 2) (sum xs)

/-- The last number. -/
def last (xs : List Binary64) : Binary64 := xs.getLastD .nan

/-- The numbers taken from a start, added and subtracted in turn. -/
def alternateFrom (start : Binary64) : List Binary64 → Binary64
  | [] => start
  | [x] => start.add x
  | x :: y :: rest => alternateFrom ((start.add x).sub y) rest

def alternate (xs : List Binary64) : Binary64 := alternateFrom (.zero false) xs

/-- The aggregates by their names. -/
def bodies : List (String × Body) := [
  ("sum", .anyNumber fun xs => .real (sum xs)),
  ("count", .anyNumber fun xs => .whole xs.length),
  ("twice", .anyNumber fun xs => .real (twice xs)),
  ("last", .anyNumber fun xs => .real (last xs)),
  ("alternate", .anyNumber fun xs => .real (alternate xs))]

end Aggregate
end Calculator
