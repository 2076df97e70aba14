import Calculator.Binary64.Basic
import Calculator.Expr.Operator
/-!
# Expressions

The tree of an expression.  Brackets leave no trace in it: the tree is the grouping.  A name keeps its spelling and, if
it was read from a text, the place where it stands, so that an error about it can point there.
-/
namespace Calculator

inductive Expr where
  | literal (value : Binary64)
  | constant (name : Text) (position : Option Int)
  | unary (op : UnaryOp) (operand : Expr)
  | binary (op : BinaryOp) (left right : Expr)
  | call (name : Text) (arguments : List Expr) (position : Option Int)

instance : Inhabited Expr := ⟨.literal default⟩

end Calculator
