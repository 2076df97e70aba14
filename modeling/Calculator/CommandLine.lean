import Calculator.Text.Numeral
import Calculator.Trace
/-!
# The command line

With an expression among its arguments the program answers it and ends; without one it prompts for expressions, a line
each, until the input ends.  `-d` or `--debug` writes a log, and `--prompt` sets the prompt.  Long options may be cut
short and take their value behind an equals sign, and `-d` may be repeated in one argument.

An argument that starts with a minus sign is an option unless it is one that cannot be meant as such: a negative number,
a single minus sign, or a text with a space in it.  Everything behind the argument `--` is an expression.
-/
namespace Calculator

/-! ## Arguments -/

/-- What one argument says. -/
inductive Argument where
  | operand
  | debug
  /-- The prompt, or nothing if the next argument is the prompt. -/
  | prompt (value : Option Text)
  | refused
deriving DecidableEq

namespace Argument

/-- A number with a minus sign, in the decimal digits of any script; a line end may follow it. -/
def isNegativeNumber (t : Text) : Bool :=
  match t with
  | '-' :: rest =>
    let isDecimal := fun c => (decimalDigit? c).isSome
    let body := if rest.getLast? = some '\n' then rest.dropLast else rest
    match body.dropWhile isDecimal with
    | [] => !body.isEmpty
    | '.' :: fraction => !fraction.isEmpty && fraction.all isDecimal
    | _ => false
  | _ => false

/-- An argument that is no option. -/
def plain (t : Text) : Argument := if isNegativeNumber t || t.contains ' ' then operand else refused

/-- The letters that follow a short option in one argument. -/
def cluster (letters : Text) : Argument := if letters ≠ [] ∧ letters.all (· == 'd') then debug else refused

/-- A long option, cut short or not, and its value if it has one. -/
def long (name : Text) (value : Option Text) : Option Argument :=
  let options := ["--help".toList, "--debug".toList, "--prompt".toList]
  match options.filter name.isPrefixOf with
  | [] => none
  | [option] =>
    if option = "--prompt".toList then some (prompt value)
    else if option = "--debug".toList ∧ value = none then some debug
    else some refused
  | _ => some refused

/-- A text up to the first equals sign, and what follows it. -/
def splitValue (t : Text) : Text × Option Text :=
  match t.span (· != '=') with
  | (name, '=' :: value) => (name, some value)
  | (name, _) => (name, none)

def classify (t : Text) : Argument :=
  match t with
  | '-' :: '-' :: _ =>
    let (name, value) := splitValue t
    (long name value).getD (plain t)
  | ['-'] => operand
  | ['-', 'd'] => debug
  | '-' :: 'd' :: letters => cluster letters
  | '-' :: 'h' :: _ => refused
  | '-' :: _ => plain t
  | _ => operand

end Argument

/-- What the arguments ask for. -/
structure Invocation where
  debug : Bool
  prompt : Text
  expression : Option Text
deriving DecidableEq

namespace Invocation

/-- Without any argument. -/
def plain : Invocation := ⟨false, "> ".toList, none⟩

/-- With an expression; there must not be two. -/
def withExpression (i : Invocation) (code : Text) : Option Invocation :=
  if i.expression.isNone then some { i with expression := some code } else none

/-- The argument behind which there are no options. -/
def endOfOptions : Text := ['-', '-']

/-- An invocation with some more arguments, unless they are refused. -/
def withArguments? (i : Invocation) : List Text → Option Invocation
  | [] => some i
  | t :: rest =>
    if t = endOfOptions then
      match rest with
      | [] => some i
      | [code] => i.withExpression code
      | _ => none
    else
      match Argument.classify t with
      | .operand => (i.withExpression t).bind (·.withArguments? rest)
      | .debug => { i with debug := true }.withArguments? rest
      | .prompt (some value) => { i with prompt := value }.withArguments? rest
      | .prompt none =>
        match rest with
        | [] => none
        | value :: rest =>
          if value ≠ endOfOptions ∧ Argument.classify value = .operand then
            { i with prompt := value }.withArguments? rest
          else none
      | .refused => none

/-- The invocation that some arguments ask for. -/
def ofArguments? (arguments : List Text) : Option Invocation := plain.withArguments? arguments

end Invocation

/-! ## Runs -/

/-- What a run leaves: its exit status and what it has written. -/
structure Output where
  status : Nat
  out : Text
  err : Text
deriving DecidableEq

variable [Platform]

/-- What an expression writes to the log. -/
def Invocation.logOf (i : Invocation) (r : Registry) (code : Text) : Text := if i.debug then log r code else []

/-- The run that answers one expression. -/
def Invocation.once (i : Invocation) (r : Registry) (code : Text) : Output :=
  let a := answer r code
  ⟨if a.success then 0 else 1, a.text ++ ['\n'], i.logOf r code⟩

/-- What a line of input is answered with; a blank line is passed over. -/
def lineAnswer (r : Registry) (line : Text) : Text := if line.all isBlank then [] else (answer r line).text ++ ['\n']

/-- What a line of input writes to the log. -/
def Invocation.lineLog (i : Invocation) (r : Registry) (line : Text) : Text :=
  if line.all isBlank then [] else i.logOf r line

/-- The run that answers lines. -/
def Invocation.prompting (i : Invocation) (r : Registry) (lines : List Text) : Output :=
  ⟨0, lines.flatMap (fun line => i.prompt ++ lineAnswer r line) ++ i.prompt ++ ['\n'], lines.flatMap (i.lineLog r)⟩

/-- The lines of the rest of an input; `line` is the line at hand, its last character first. -/
def linesFrom (line : Text) : Text → List Text
  | [] => if line.isEmpty then [] else [line.reverse]
  | c :: rest => if c = '\n' then line.reverse :: linesFrom [] rest else linesFrom (c :: line) rest

/-- The lines of an input.  A line end closes a line, and behind the last one no other starts. -/
def inputLines (input : Text) : List Text := linesFrom [] input

/-- A run, given all that will be typed. -/
def Invocation.run (i : Invocation) (r : Registry) (input : Text) : Output :=
  match i.expression with
  | some code => i.once r code
  | none => i.prompting r (inputLines input)

end Calculator
