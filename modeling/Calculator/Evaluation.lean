import Calculator.Expr.Basic
import Calculator.Function.Constant
import Calculator.Function.Registry
import Calculator.Platform
/-!
# Evaluation

The value of a tree under a registry, in postorder and from left to right.  Arithmetic never fails: what has no value is
a NaN or an infinity.  Only names can be wrong, and the walk ends at the first wrong one that it meets: a call looks at
its name and at the number of its arguments before it evaluates them.

`eval` is the value as such.  `evalWithin` walks with a budget, of which an operator costs its operands one unit and a
call costs its arguments `callCost`; a node for which nothing is left is not visited, and the tree is too deep.  The
budget of `evaluate` is that of the platform.
-/
namespace Calculator

/-! ## Errors -/

inductive EvalError where
  | unknownConstant (name : Text) (position : Option Int)
  | unknownFunction (name : Text) (position : Option Int)
  /-- A call, spelled `name`, of `function` with a number of arguments that it does not accept. -/
  | arityMismatch (name : Text) (position : Option Int) (function : Text) (arity : Arity) (given : Nat)
  | tooDeep
deriving DecidableEq

variable [Platform]

/-! ## Operators -/

def UnaryOp.apply : UnaryOp → Binary64 → Binary64
  | neg, x => x.neg
  | pos, x => x
  | sqrt, x => x.sqrt
  | factorial, x => x.factorial

def BinaryOp.apply : BinaryOp → Binary64 → Binary64 → Binary64
  | add, x, y => x.add y
  | sub, x, y => x.sub y
  | mul, x, y => x.mul y
  | div, x, y => x.div y
  | mod, x, y => x.rem y
  | pow, x, y => x.pow y

/-! ## Names -/

/-- The value of a constant. -/
def resolveConstant (name : Text) (position : Option Int) : Except EvalError Binary64 :=
  match constant? name with
  | some x => .ok x
  | none => .error (.unknownConstant name position)

/-- The function that a call with a number of arguments means. -/
def Registry.resolve (r : Registry) (name : Text) (position : Option Int) (given : Nat) : Except EvalError Function :=
  match r.find? name with
  | none => .error (.unknownFunction name position)
  | some f =>
    if f.arity.accepts given then .ok f else .error (.arityMismatch name position f.name f.arity given)

/-! ## Without a budget -/

mutual

/-- The value of a tree. -/
def eval (r : Registry) : Expr → Except EvalError Binary64
  | .literal value => .ok value
  | .constant name position => resolveConstant name position
  | .unary op operand =>
    match eval r operand with
    | .error e => .error e
    | .ok x => .ok (op.apply x)
  | .binary op left right =>
    match eval r left with
    | .error e => .error e
    | .ok x =>
      match eval r right with
      | .error e => .error e
      | .ok y => .ok (op.apply x y)
  | .call name arguments position =>
    match r.resolve name position arguments.length with
    | .error e => .error e
    | .ok f =>
      match evalAll r arguments with
      | .error e => .error e
      | .ok values => .ok (f.body.apply values).toBinary64

/-- The values of some trees, from left to right. -/
def evalAll (r : Registry) : List Expr → Except EvalError (List Binary64)
  | [] => .ok []
  | e :: rest =>
    match eval r e with
    | .error e => .error e
    | .ok x =>
      match evalAll r rest with
      | .error e => .error e
      | .ok values => .ok (x :: values)

end

/-! ## Within a budget -/

/-- What a call takes from the budget of its arguments. -/
def callCost : Nat := 3

mutual

/-- The value of a tree, with `budget` left for the levels below its root. -/
def evalWithin (r : Registry) (budget : Nat) : Expr → Except EvalError Binary64
  | .literal value => .ok value
  | .constant name position => resolveConstant name position
  | .unary op operand =>
    if budget = 0 then .error .tooDeep
    else
      match evalWithin r (budget - 1) operand with
      | .error e => .error e
      | .ok x => .ok (op.apply x)
  | .binary op left right =>
    if budget = 0 then .error .tooDeep
    else
      match evalWithin r (budget - 1) left with
      | .error e => .error e
      | .ok x =>
        match evalWithin r (budget - 1) right with
        | .error e => .error e
        | .ok y => .ok (op.apply x y)
  | .call name arguments position =>
    match r.resolve name position arguments.length with
    | .error e => .error e
    | .ok f =>
      match evalAllWithin r budget arguments with
      | .error e => .error e
      | .ok values => .ok (f.body.apply values).toBinary64

/-- The values of the arguments of a call, with `budget` left for the levels below the call. -/
def evalAllWithin (r : Registry) (budget : Nat) : List Expr → Except EvalError (List Binary64)
  | [] => .ok []
  | e :: rest =>
    if budget < callCost then .error .tooDeep
    else
      match evalWithin r (budget - callCost) e with
      | .error e => .error e
      | .ok x =>
        match evalAllWithin r budget rest with
        | .error e => .error e
        | .ok values => .ok (x :: values)

end

/-- The value of a tree that is not too deep for the platform. -/
def evaluate (r : Registry) (e : Expr) : Except EvalError Binary64 := evalWithin r Platform.stackBudget e

/-! ## Completed calls -/

/-- A call that was completed: the function, its arguments and its result. -/
structure CallRecord where
  function : Text
  arguments : List Binary64
  result : Outcome

mutual

/-- The calls that the walk completes, in order, up to the first error. -/
def calls (r : Registry) : Expr → List CallRecord
  | .literal _ => []
  | .constant .. => []
  | .unary _ operand => calls r operand
  | .binary _ left right => calls r left ++ if (eval r left).isOk then calls r right else []
  | .call name arguments position =>
    match r.resolve name position arguments.length with
    | .error _ => []
    | .ok f =>
      callsAll r arguments ++
        match evalAll r arguments with
        | .error _ => []
        | .ok values => [⟨f.name, values, f.body.apply values⟩]

def callsAll (r : Registry) : List Expr → List CallRecord
  | [] => []
  | e :: rest => calls r e ++ if (eval r e).isOk then callsAll r rest else []

end

end Calculator
