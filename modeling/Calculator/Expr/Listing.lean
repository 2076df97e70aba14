import Calculator.Expr.Basic
/-!
# Expressions as listings

A tree is written as a row of nodes in postorder: operands and arguments from left to right, then their node.  A call
says how many arguments it has, so the row has one reading, from left to right with a stack of finished trees.
-/
namespace Calculator

inductive Node where
  | literal (value : Binary64)
  | constant (name : Text) (position : Option Int)
  | unary (op : UnaryOp)
  | binary (op : BinaryOp)
  | call (name : Text) (count : Nat) (position : Option Int)
deriving DecidableEq

namespace Expr

mutual

/-- The nodes of a tree in postorder. -/
def listing : Expr → List Node
  | literal value => [.literal value]
  | constant name position => [.constant name position]
  | unary op operand => operand.listing ++ [.unary op]
  | binary op left right => left.listing ++ right.listing ++ [.binary op]
  | call name arguments position => listingAll arguments ++ [.call name arguments.length position]

def listingAll : List Expr → List Node
  | [] => []
  | e :: rest => e.listing ++ listingAll rest

end

/-- One node on a stack of finished trees, the last one on top. -/
def stack? (node : Node) (trees : List Expr) : Option (List Expr) :=
  match node, trees with
  | .literal value, _ => some (.literal value :: trees)
  | .constant name position, _ => some (.constant name position :: trees)
  | .unary op, operand :: rest => some (.unary op operand :: rest)
  | .binary op, right :: left :: rest => some (.binary op left right :: rest)
  | .call name count position, _ =>
    if trees.length < count then none
    else some (.call name (trees.take count).reverse position :: trees.drop count)
  | _, _ => none

/-- The tree that a listing describes. -/
def ofListing? (nodes : List Node) : Option Expr :=
  match nodes.foldlM (fun trees node => stack? node trees) [] with
  | some [e] => some e
  | _ => none

end Expr
end Calculator
