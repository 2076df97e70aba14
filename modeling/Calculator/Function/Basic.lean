import Calculator.Decimal.Layout
import Calculator.Text.Fold
/-!
# Functions

A function has a name, an arity, which says with how many arguments it may be called, and a body, which computes.  The
arity is checked before the arguments are evaluated, so a body is only given as many arguments as the arity accepts.
-/
namespace Calculator

/-! ## Arity -/

/-- How many arguments are accepted: at least `least`, and at most `most` if that is given. -/
structure Arity where
  least : Int
  most : Option Int
deriving DecidableEq

namespace Arity

def accepts (a : Arity) (count : Nat) : Bool := a.least ≤ count && a.most.all fun (most : Int) => (count : Int) ≤ most

def text (a : Arity) : Text :=
  match a.most with
  | none => "at least ".toList ++ signedNumeral a.least
  | some most =>
    if most = a.least then signedNumeral a.least
    else signedNumeral a.least ++ " to ".toList ++ signedNumeral most

/-- The arity of a registration: a function with any number of arguments has no upper bound, and an upper bound that is
not given is the lower one. -/
def ofBounds (least : Int) (most : Option Int) (variadic : Bool) : Arity :=
  ⟨least, if variadic then none else some (most.getD least)⟩

end Arity

/-! ## Bodies -/

/-- What a function gives: mostly a double, but a function that counts gives a whole number, which logs show as one. -/
inductive Outcome where
  | real (x : Binary64)
  | whole (n : Nat)
deriving DecidableEq

namespace Outcome

def toBinary64 : Outcome → Binary64
  | real x => x
  | whole n => .ofInt n

def text : Outcome → Text
  | real x => x.literalText
  | whole n => numeral n

end Outcome

/-- How a function computes, by the arguments it needs. -/
inductive Body where
  | one (f : Binary64 → Binary64)
  | two (f : Binary64 → Binary64 → Binary64)
  /-- The second argument may be left out and then has a default. -/
  | oneOrTwo (second : Binary64) (f : Binary64 → Binary64 → Binary64)
  /-- A first argument and any number of others. -/
  | oneOrMore (f : Binary64 → List Binary64 → Binary64)
  | anyNumber (f : List Binary64 → Outcome)

namespace Body

/-- Whether a body can be given a number of arguments. -/
def takes : Body → Nat → Bool
  | one _, n => n == 1
  | two _, n => n == 2
  | oneOrTwo .., n => n == 1 || n == 2
  | oneOrMore _, n => 1 ≤ n
  | anyNumber _, _ => true

/-- The result of a body; a number of arguments that it does not take gives a NaN. -/
def apply : Body → List Binary64 → Outcome
  | one f, [x] => .real (f x)
  | two f, [x, y] => .real (f x y)
  | oneOrTwo second f, [x] => .real (f x second)
  | oneOrTwo _ f, [x, y] => .real (f x y)
  | oneOrMore f, x :: rest => .real (f x rest)
  | anyNumber f, arguments => f arguments
  | _, _ => .real .nan

end Body

/-! ## Functions -/

structure Function where
  name : Text
  arity : Arity
  body : Body

/-- What a function is looked up by. -/
def Function.key (f : Function) : Text := caseFold f.name

end Calculator
