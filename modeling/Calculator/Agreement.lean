import Calculator.Answer
/-!
# Agreement with another calculator

The calculator is compared with another one that may fail where it does not, and the other way round.  Two values agree
if they are close, relative to the greater of them; two failures agree whatever they say.
-/
namespace Calculator

/-- What the other calculator gives: a value, a complaint, or nothing that could be compared. -/
inductive Opinion where
  | nothing
  | complaint (text : Text)
  | value (x : Binary64)

/-- The difference that two close numbers may have, relative to one of them. -/
def closeness : Binary64 := Decimal.toBinary64 false ⟨1, -9⟩

/-- Equal, or finite and no further apart than `closeness` times one of them. -/
def isClose (x y : Binary64) : Bool :=
  let difference := (y.sub x).abs
  x.same y ||
    (x.isFinite && y.isFinite &&
      (difference.le (closeness.mul y).abs || difference.le (closeness.mul x).abs || difference.le (.zero false)))

/-- A complaint that is about the way a number is written, which the calculator does not share. -/
def aboutLeadingZeros (text : Text) : Bool :=
  "leading zeros in decimal integer literals are not permitted".toList.isPrefixOf text

/-- Whether an opinion and a result agree. -/
def agree (other : Opinion) (mine : Except Failure Binary64) : Bool :=
  match other, mine with
  | .nothing, _ => true
  | .value y, .ok x => isClose x y || (y.isNaN && x.isNaN)
  | .value _, .error _ => false
  | .complaint _, .error _ => true
  | .complaint text, .ok _ => aboutLeadingZeros text

end Calculator
