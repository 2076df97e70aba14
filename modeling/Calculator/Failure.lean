import Calculator.Evaluation
import Calculator.Expr.Parse
import Calculator.Text.Quoted
/-!
# Failures, and what is said of them

All that can keep an expression from having a value, by the stage at which it is found.  Every failure has a message and
most have a place in the expression; the words are all here.
-/
namespace Calculator

inductive Failure where
  | parsing (e : ParseFailure)
  | evaluation (e : EvalError)
deriving DecidableEq

/-! ## Messages -/

def ScanFault.message : ScanFault → Text
  | unexpectedCharacter c => "Unexpected character: ".toList ++ quoted [c]
  | invalidNumber literal => "Invalid number literal: ".toList ++ quoted literal

def SyntaxError.message (e : SyntaxError) : Text :=
  let found := quoted e.found.lexeme
  match e.fault with
  | .tooDeep limit => "Expression is nested more than ".toList ++ numeral limit ++ " levels deep".toList
  | .unexpectedEnd => "Unexpected end of input, expected a value".toList
  | .valueExpected => "Expected a value, found ".toList ++ found
  | .closingExpected false => "Expected ')', found ".toList ++ found
  | .closingExpected true => "Expected ',' or ')', found ".toList ++ found
  | .unclosed => "Unclosed bracket".toList
  | .trailing => "Unexpected ".toList ++ found ++ " after the end of the expression".toList

def ParseFailure.message : ParseFailure → Text
  | scan e => e.fault.message
  | grammar e => e.message
  | unreadable lexeme => "could not convert string to float: ".toList ++ quoted lexeme

def EvalError.message : EvalError → Text
  | unknownConstant name _ => "Unknown constant ".toList ++ quoted name
  | unknownFunction name _ => "Unknown function ".toList ++ quoted name
  | arityMismatch _ _ function arity given =>
    function ++ "() takes ".toList ++ arity.text ++ " argument(s), ".toList ++ numeral given ++ " given".toList
  | tooDeep => "Expression is too deeply nested to evaluate".toList

def Failure.message : Failure → Text
  | parsing e => e.message
  | evaluation e => e.message

/-! ## Places -/

def ParseFailure.position? : ParseFailure → Option Int
  | scan e => some e.position
  | grammar e => some e.position
  | unreadable _ => none

def EvalError.position? : EvalError → Option Int
  | unknownConstant _ position => position
  | unknownFunction _ position => position
  | arityMismatch _ position .. => position
  | tooDeep => none

def Failure.position? : Failure → Option Int
  | parsing e => e.position?
  | evaluation e => e.position?

/-! ## Kinds

The names under which logs record a failure. -/

def ScanFault.kind : ScanFault → Text
  | unexpectedCharacter _ => "UNEXPECTED_CHARACTER".toList
  | invalidNumber _ => "INVALID_NUMBER".toList

def SyntaxFault.kind : SyntaxFault → Text
  | tooDeep _ => "TOO_DEEP".toList
  | unexpectedEnd => "UNEXPECTED_END_OF_INPUT".toList
  | valueExpected => "UNEXPECTED_TOKEN".toList
  | closingExpected _ => "UNEXPECTED_TOKEN".toList
  | unclosed => "UNMATCHED_PARENTHESIS".toList
  | trailing => "TRAILING_INPUT".toList

def EvalError.kind : EvalError → Text
  | unknownConstant .. => "UNKNOWN_CONSTANT".toList
  | unknownFunction .. => "UNKNOWN_FUNCTION".toList
  | arityMismatch .. => "ARITY_MISMATCH".toList
  | tooDeep => "TOO_DEEP".toList

/-- The spelling of the name that an evaluation error is about; a tree that is too deep is about none. -/
def EvalError.name : EvalError → Text
  | unknownConstant name _ => name
  | unknownFunction name _ => name
  | arityMismatch name .. => name
  | tooDeep => []

def Failure.kind : Failure → Text
  | parsing (.scan e) => e.fault.kind
  | parsing (.grammar e) => e.fault.kind
  | parsing (.unreadable _) => []
  | evaluation e => e.kind

/-- The name of the class that a failure belongs to. -/
def Failure.category : Failure → Text
  | parsing (.scan _) => "LexError".toList
  | parsing (.grammar _) => "ParseError".toList
  | parsing (.unreadable _) => "ValueError".toList
  | evaluation _ => "EvalError".toList

end Calculator
