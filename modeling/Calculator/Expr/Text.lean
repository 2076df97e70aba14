import Calculator.Decimal.Layout
import Calculator.Expr.Basic
import Calculator.Text.Quoted
/-!
# Expressions in logs

A log shows a tree with every node written out, its kind first and then its parts by their names.
-/
namespace Calculator

/-- A place in a log. -/
def positionText : Option Int → Text
  | none => "None".toList
  | some i => signedNumeral i

namespace Expr

mutual

/-- A tree on one line. -/
def text : Expr → Text
  | literal value => "Literal(value=".toList ++ value.literalText ++ [')']
  | constant name position =>
    "ConstantRef(name=".toList ++ quoted name ++ ", position=".toList ++ positionText position ++ [')']
  | unary op operand =>
    "UnaryOp(operator=".toList ++ op.label ++ ", operand=".toList ++ operand.text ++ ", fixity=".toList
      ++ op.fixity.label ++ [')']
  | binary op left right =>
    "BinaryOp(operator=".toList ++ op.label ++ ", left=".toList ++ left.text ++ ", right=".toList ++ right.text ++ [')']
  | call name arguments position =>
    "Call(name=".toList ++ quoted name ++ ", arguments=[".toList ++ [',', ' '].intercalate (textAll arguments)
      ++ "], position=".toList ++ positionText position ++ [')']

def textAll : List Expr → List Text
  | [] => []
  | e :: rest => e.text :: textAll rest

end

end Expr
end Calculator
