import Calculator.CommandLine
import Calculator.Function.Builtin
/-!
# The program

Reading lines and writing text; what is written is decided by `Calculator.Invocation`.
-/
namespace Calculator

/-- Answer lines until the input ends. -/
partial def answerLines (i : Invocation) : IO Unit := do
  let out ← IO.getStdout
  out.putStr (String.ofList i.prompt)
  out.flush
  let line ← (← IO.getStdin).getLine
  if line.isEmpty then out.putStrLn ""
  else
    for code in inputLines line.toList do
      IO.eprint (String.ofList (i.lineLog .builtin code))
      out.putStr (String.ofList (lineAnswer .builtin code))
    answerLines i

/-- Carry out an invocation and give its exit status. -/
def Invocation.perform (i : Invocation) : IO UInt32 := do
  match i.expression with
  | some code =>
    let output := i.once .builtin code
    IO.eprint (String.ofList output.err)
    IO.print (String.ofList output.out)
    return output.status.toUInt32
  | none =>
    answerLines i
    return 0

end Calculator

def main (arguments : List String) : IO UInt32 := do
  match Calculator.Invocation.ofArguments? (arguments.map (·.toList)) with
  | some i => i.perform
  | none =>
    IO.eprintln "usage: calculator [-d] [--prompt PROMPT] [expr]"
    return 2
