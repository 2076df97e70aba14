import Calculator.Binary64.Arithmetic
import Calculator.Binary64.Bits
/-!
# Elementary functions

Exponential, logarithms, trigonometric functions and powers.  Their values are the machine's, passed over as bits; what
the calculator adds is stated here exactly: which base makes a logarithm natural, how angles are converted, and every
power whose value is known without computing one.
-/
namespace Calculator
namespace Binary64

/-! ## Functions of the machine -/

/-- A function of the machine as a function on doubles. -/
def ofMachine (f : Float → Float) (x : Binary64) : Binary64 := ofBits (f (Float.ofBits x.toBits)).toBits

def ofMachine₂ (f : Float → Float → Float) (x y : Binary64) : Binary64 :=
  ofBits (f (Float.ofBits x.toBits) (Float.ofBits y.toBits)).toBits

def exp : Binary64 → Binary64 := ofMachine Float.exp
def sin : Binary64 → Binary64 := ofMachine Float.sin
def cos : Binary64 → Binary64 := ofMachine Float.cos
def tan : Binary64 → Binary64 := ofMachine Float.tan
def asin : Binary64 → Binary64 := ofMachine Float.asin
def acos : Binary64 → Binary64 := ofMachine Float.acos
def atan : Binary64 → Binary64 := ofMachine Float.atan
def atan2 : Binary64 → Binary64 → Binary64 := ofMachine₂ Float.atan2

/-! ## Logarithms

A zero of either sign has the logarithm minus infinity, a negative number none. -/

def logarithm (f : Float → Float) (x : Binary64) : Binary64 :=
  if x.isZero then infinite true else if x.isNegative then nan else ofMachine f x

def ln : Binary64 → Binary64 := logarithm Float.log
def log10 : Binary64 → Binary64 := logarithm Float.log10
def log2 : Binary64 → Binary64 := logarithm Float.log2

/-- The double nearest to Euler's number. -/
def e : Binary64 := ofBits 0x4005BF0A8B145769

/-- The logarithm to a base; to the base `e` it is the natural one, undivided. -/
def log (x base : Binary64) : Binary64 := if base.same e then x.ln else div x.ln base.ln

/-! ## Angles -/

/-- The double nearest to half a turn in radians. -/
def pi : Binary64 := ofBits 0x400921FB54442D18

/-- The double nearest to a turn in radians. -/
def tau : Binary64 := ofBits 0x401921FB54442D18

def degrees (x : Binary64) : Binary64 := mul x (div (ofInt 180) pi)

def radians (x : Binary64) : Binary64 := mul x (div pi (ofInt 180))

/-! ## Powers -/

/-- The double one. -/
def one : Binary64 := ofInt 1

/-- The power of a base that is neither NaN nor one to an exponent that is neither NaN nor zero.  It has a sign only if
the base has one and the exponent is odd; beside an infinity or a zero its magnitude is infinite, zero or one, and a
negative base has no power to a fraction. -/
def properPow (x y : Binary64) : Binary64 :=
  let negative := x.isNegative && y.isOdd
  match y with
  | infinite shrinking =>
    if x.abs.same one then one
    else if x.abs.lt one = shrinking then infinite false
    else zero false
  | _ =>
    if !x.isFinite then if y.isNegative then zero negative else infinite negative
    else if x.isZero then if y.isNegative then infinite negative else zero negative
    else if x.isNegative && !y.isIntegral then nan
    else (ofMachine₂ Float.pow x.abs y).withSign negative

/-- The power.  Anything to a zero is one, and so is one to anything. -/
def pow (x y : Binary64) : Binary64 :=
  if y.isZero || x.same one then one
  else if x.isNaN || y.isNaN then nan
  else properPow x y

end Binary64
end Calculator
