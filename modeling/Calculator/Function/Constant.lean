import Calculator.Binary64.Elementary
import Calculator.Text.Fold
/-!
# Constants

A name that is not called is a constant.  Constants and functions are looked up apart, so a name may mean one of each.
-/
namespace Calculator

/-- The constants by their keys. -/
def constants : List (Text × Binary64) := [
  ("e".toList, .e),
  ("pi".toList, .pi),
  ("π".toList, .pi),
  ("tau".toList, .tau),
  ("inf".toList, .infinite false),
  ("nan".toList, .nan)]

/-- The constant that a name means, in any spelling. -/
def constant? (name : Text) : Option Binary64 := constants.lookup (caseFold name)

/-- The constants in the order of their keys. -/
def sortedConstants : List (Text × Binary64) := constants.mergeSort fun a b => precedes a.1 b.1

end Calculator
