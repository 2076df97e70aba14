import Calculator.Binary64.Elementary
import Calculator.Binary64.Integral
import Calculator.Function.Registry
/-!
# The functions that are always there
-/
namespace Calculator
namespace Builtin

/-! ## Extremes -/

/-- The least of some numbers; of equal ones the first, and a NaN if there is one among them. -/
def least (x : Binary64) (rest : List Binary64) : Binary64 :=
  if (x :: rest).any Binary64.isNaN then .nan
  else rest.foldl (fun least y => if y.lt least then y else least) x

/-- The greatest of some numbers; of equal ones the first, and a NaN if there is one among them. -/
def greatest (x : Binary64) (rest : List Binary64) : Binary64 :=
  if (x :: rest).any Binary64.isNaN then .nan
  else rest.foldl (fun greatest y => if greatest.lt y then y else greatest) x

/-! ## The table -/

def ofOne (name : String) (f : Binary64 → Binary64) : Function := ⟨name.toList, ⟨1, some 1⟩, .one f⟩

def functions : List Function := [
  ofOne "sqrt" Binary64.sqrt,
  ofOne "abs" Binary64.abs,
  ofOne "exp" Binary64.exp,
  ofOne "ln" Binary64.ln,
  ⟨"log".toList, ⟨1, some 2⟩, .oneOrTwo .e Binary64.log⟩,
  ofOne "log10" Binary64.log10,
  ofOne "log2" Binary64.log2,
  ofOne "sin" Binary64.sin,
  ofOne "cos" Binary64.cos,
  ofOne "tan" Binary64.tan,
  ofOne "asin" Binary64.asin,
  ofOne "acos" Binary64.acos,
  ofOne "atan" Binary64.atan,
  ⟨"atan2".toList, ⟨2, some 2⟩, .two Binary64.atan2⟩,
  ofOne "degrees" Binary64.degrees,
  ofOne "radians" Binary64.radians,
  ofOne "floor" Binary64.floor,
  ofOne "ceil" Binary64.ceil,
  ofOne "trunc" Binary64.trunc,
  ⟨"round".toList, ⟨1, some 2⟩, .oneOrTwo (.zero false) Binary64.round⟩,
  ⟨"min".toList, ⟨1, none⟩, .oneOrMore least⟩,
  ⟨"max".toList, ⟨1, none⟩, .oneOrMore greatest⟩]

end Builtin

/-- The registry before anything is registered by a user. -/
def Registry.builtin : Registry := ⟨Builtin.functions, by decide +kernel⟩

end Calculator
