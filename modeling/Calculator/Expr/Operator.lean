import Calculator.Token.Basic
/-!
# Operators

Which operation a token stands for depends on where it is met.  Where a value is expected, `+`, `-` and `√` lead one;
behind a value, `!` completes it and the others join it to a right operand.  A stronger operator binds first: the signs
are the strongest, so that `-2^2` is `4`, and the root is as weak as a sum, so that it takes everything that follows it.
-/
namespace Calculator

inductive UnaryOp where
  | neg | pos | sqrt | factorial
deriving DecidableEq

inductive BinaryOp where
  | add | sub | mul | div | mod | pow
deriving DecidableEq

/-- Which of two equal operators in a row binds first. -/
inductive Associativity where
  | left | right
deriving DecidableEq

/-- Where an operator stands: before its operand, between two, or behind one. -/
inductive Fixity where
  | before | between | behind
deriving DecidableEq

inductive Operation where
  | unary (op : UnaryOp)
  | binary (op : BinaryOp)
deriving DecidableEq

/-! ## Strength -/

namespace UnaryOp

def strength : UnaryOp → Nat
  | neg | pos => 5
  | factorial => 4
  | sqrt => 1

def associativity : UnaryOp → Associativity
  | factorial => .left
  | _ => .right

def fixity : UnaryOp → Fixity
  | factorial => .behind
  | _ => .before

end UnaryOp

namespace BinaryOp

def strength : BinaryOp → Nat
  | pow => 3
  | mul | div | mod => 2
  | add | sub => 1

def associativity : BinaryOp → Associativity
  | pow => .right
  | _ => .left

end BinaryOp

namespace Operation

def strength : Operation → Nat
  | unary op => op.strength
  | binary op => op.strength

def associativity : Operation → Associativity
  | unary op => op.associativity
  | binary op => op.associativity

def fixity : Operation → Fixity
  | unary op => op.fixity
  | binary _ => .between

/-- The least strength of an operator that may be taken into the operand behind this one. -/
def operandStrength (op : Operation) : Nat :=
  match op.associativity with
  | .left => op.strength + 1
  | .right => op.strength

end Operation

/-! ## Operators of tokens -/

namespace TokenKind

/-- The operator of a token where a value is expected. -/
def leading? : TokenKind → Option UnaryOp
  | plus => some .pos
  | minus => some .neg
  | root => some .sqrt
  | _ => none

/-- The operator of a token behind a value. -/
def trailing? : TokenKind → Option Operation
  | bang => some (.unary .factorial)
  | caret => some (.binary .pow)
  | star => some (.binary .mul)
  | slash => some (.binary .div)
  | percent => some (.binary .mod)
  | plus => some (.binary .add)
  | minus => some (.binary .sub)
  | _ => none

end TokenKind

/-! ## Names in logs -/

def UnaryOp.label : UnaryOp → Text
  | neg => "NEG".toList
  | pos => "POS".toList
  | sqrt => "SQRT".toList
  | factorial => "FACTORIAL".toList

def BinaryOp.label : BinaryOp → Text
  | add => "ADD".toList
  | sub => "SUB".toList
  | mul => "MUL".toList
  | div => "DIV".toList
  | mod => "MOD".toList
  | pow => "POW".toList

def Operation.label : Operation → Text
  | unary op => op.label
  | binary op => op.label

def Fixity.label : Fixity → Text
  | before => "PREFIX".toList
  | between => "INFIX".toList
  | behind => "POSTFIX".toList

def Associativity.label : Associativity → Text
  | left => "LEFT".toList
  | right => "RIGHT".toList

end Calculator
