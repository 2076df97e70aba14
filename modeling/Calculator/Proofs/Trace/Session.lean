import Calculator.CommandLine
import Calculator.Proofs.Evaluation.Culprit
import Calculator.Proofs.Trace.Calls
import Calculator.Proofs.Trace.Reading
import Mathlib.Data.List.Basic
/-!
# The program as it goes along

`Calculator.Invocation.run` says what the program leaves on its two channels, each as a whole.  Here the program goes
from step to step: the descent logs every token that it fetches, the tree is logged when it is complete and every call
when its value is there, a failure is logged where it is caught, and then the answer is printed (`attempt`,
`Invocation.conduct`).  Both ways come to the same (`Invocation.conduct_eq_run`).

What an expression has logged by the end is one of four accounts (`Account`), one for each stage at which it may fail
and one for an expression that has a value.  An account is made of lines of text, which are spelled out here (`Line`)
and not taken from the records.
-/
namespace Calculator

/-! ## Lines -/

namespace Line

def evaluating (code : Text) : Text := "DEBUG exprcalc: ".toList ++ ("Evaluating ".toList ++ quoted code) ++ ['\n']

/-- The kind of a token, its lexeme, and where it stands. -/
def read (t : Token) : Text :=
  "DEBUG exprcalc.parser: ".toList
    ++ ("Read token ".toList ++ ('<' :: t.kind.label ++ '>' :: t.lexeme) ++ " at ".toList ++ signedNumeral t.position)
    ++ ['\n']

/-- The text of the tokens, and the tree. -/
def parsed (tokens : List Token) (tree : Expr) : Text :=
  "DEBUG exprcalc.parser: ".toList
    ++ ("Parsed expression ".toList ++ quoted (joinTokens tokens) ++ ": ".toList ++ tree.text) ++ ['\n']

/-- A function by the name under which it is registered, its arguments and its result. -/
def called (c : CallRecord) : Text :=
  "DEBUG exprcalc.runtime: ".toList
    ++ (c.function ++ '(' :: [',', ' '].intercalate (c.arguments.map (·.literalText)) ++ ") = ".toList ++ c.result.text)
    ++ ['\n']

/-- The class of a failure, and its kind. -/
def failed (code category kind : Text) : Text :=
  "DEBUG repl: ".toList ++ ("Failed to evaluate ".toList ++ quoted code ++ ": ".toList ++ category ++ ' ' :: kind)
    ++ ['\n']

end Line

namespace Record

theorem line_of_heading {record : Record} {heading : Text}
    (h : "DEBUG ".toList ++ record.origin ++ ": ".toList = heading) :
    record.line = heading ++ record.message ++ ['\n'] :=
  congrArg (fun heading => heading ++ record.message ++ ['\n']) h

theorem line_evaluating (code : Text) : (evaluating code).line = Line.evaluating code :=
  @line_of_heading (evaluating code) "DEBUG exprcalc: ".toList rfl

theorem line_read (t : Token) : (read t).line = Line.read t :=
  @line_of_heading (read t) "DEBUG exprcalc.parser: ".toList rfl

theorem line_parsed (tokens : List Token) (tree : Expr) : (parsed tokens tree).line = Line.parsed tokens tree :=
  @line_of_heading (parsed tokens tree) "DEBUG exprcalc.parser: ".toList rfl

theorem line_called (c : CallRecord) : (called c).line = Line.called c :=
  @line_of_heading (called c) "DEBUG exprcalc.runtime: ".toList rfl

theorem line_failed (code : Text) (f : Failure) : (failed code f).line = Line.failed code f.category f.kind :=
  @line_of_heading (failed code f) "DEBUG repl: ".toList rfl

/-- The lines of an expression up to the last token that is read, and those behind. -/
theorem map_line_begun (code : Text) (ts : List Token) (rest : List Record) :
    (evaluating code :: ts.map read ++ rest).map line =
      Line.evaluating code :: ts.map Line.read ++ rest.map line := by
  have hread : line ∘ read = Line.read := funext line_read
  rw [List.map_append, List.map_cons, List.map_map, hread, line_evaluating]

theorem map_line_called (cs : List CallRecord) : (cs.map called).map line = cs.map Line.called := by
  have hcalled : line ∘ called = Line.called := funext line_called
  rw [List.map_map, hcalled]

end Record

/-- The end mark is not among the tokens of a text. -/
theorem joinTokens_append_endMark (front : List Token) (p : Int) :
    joinTokens (front ++ [.endMark p]) = joinTokens front := by
  have hend : ([Token.endMark p]).filter (!·.isEnd) = [] := rfl
  rw [joinTokens, joinTokens, List.filter_append, hend, List.append_nil]

theorem Line.parsed_append_endMark (front : List Token) (p : Int) (tree : Expr) :
    parsed (front ++ [.endMark p]) tree = parsed front tree :=
  congrArg (fun shown => "DEBUG exprcalc.parser: ".toList
    ++ ("Parsed expression ".toList ++ quoted shown ++ ": ".toList ++ tree.text) ++ ['\n'])
    (joinTokens_append_endMark front p)

/-! ## An expression -/

/-- What has been logged, and the outcome. -/
structure Attempt where
  records : List Record
  outcome : Except Failure Binary64

section Expression

variable [Platform]

/-- Evaluate a tree. -/
def attemptTree (r : Registry) (code : Text) (tree : Expr) : Attempt :=
  let evaluation := narrate r Platform.stackBudget tree
  match evaluation.answer with
  | .ok x => ⟨evaluation.calls.map .called, .ok x⟩
  | .error e => ⟨evaluation.calls.map .called ++ [.failed code (.evaluation e)], .error (.evaluation e)⟩

/-- Work on an expression. -/
def attempt (r : Registry) (code : Text) : Attempt :=
  let source := scan code
  let parsing := Descent.moment (some nestingLimit) source (Descent.steps source)
  let begun := .evaluating code :: (Descent.readings (some nestingLimit) source (Descent.steps source)).map .read
  match parsing.task with
  | .done (.ok tree) =>
    let evaluating := attemptTree r code tree
    ⟨begun ++ .parsed parsing.cursor.consumed.reverse tree :: evaluating.records, evaluating.outcome⟩
  | .done (.error e) => ⟨begun ++ [.failed code (.parsing e)], .error (.parsing e)⟩
  | _ => ⟨begun, .error (.parsing (.unreadable []))⟩ -- never: after so many steps the descent is done

/-- The lines that an expression logs, and their order. -/
inductive Account (r : Registry) (code : Text) : List Text → Prop
  /-- The parser has come to a fault: it has read all tokens before it. -/
  | fault (e : ScanError) : (scan code).failure = some e → (∀ t ∈ (scan code).tokens, t.isEnd = false) →
      calculate r code = .error (.parsing (.scan e)) →
      Account r code (Line.evaluating code :: (scan code).tokens.map Line.read ++
        [Line.failed code "LexError".toList e.fault.kind])
  /-- The parser has come to a token that cannot go on: it has not read any behind it. -/
  | grammar (e : SyntaxError) (before behind : List Token) : (scan code).tokens = before ++ e.found :: behind →
      (∀ failure rest, parse ⟨before ++ e.found :: rest, failure⟩ = .error (.grammar e)) →
      (∀ fault, parse ⟨before, some fault⟩ = .error (.scan fault)) →
      calculate r code = .error (.parsing (.grammar e)) →
      Account r code (Line.evaluating code :: (before ++ [e.found]).map Line.read ++
        [Line.failed code "ParseError".toList e.fault.kind])
  /-- The evaluation has come to a wrong name. -/
  | name (front : List Token) (tree : Expr) (e : EvalError) : scan code = ⟨front ++ [.endMark code.length], none⟩ →
      (∀ t ∈ front, t.isEnd = false) → parse (scan code) = .ok tree →
      calculate r code = .error (.evaluation e) →
      Account r code (Line.evaluating code :: (front ++ [Token.endMark code.length]).map Line.read ++
        Line.parsed front tree :: (completedCalls r tree).map Line.called ++
          [Line.failed code "EvalError".toList e.kind])
  /-- The expression has a value: no failure is logged. -/
  | value (front : List Token) (tree : Expr) (x : Binary64) : scan code = ⟨front ++ [.endMark code.length], none⟩ →
      (∀ t ∈ front, t.isEnd = false) → parse (scan code) = .ok tree → calculate r code = .ok x →
      Account r code (Line.evaluating code :: (front ++ [Token.endMark code.length]).map Line.read ++
        Line.parsed front tree :: (completedCalls r tree).map Line.called)

variable {r : Registry} {code : Text}

theorem calculate_of_error {e : ParseFailure} (h : parse (scan code) = .error e) :
    calculate r code = .error (.parsing e) := by
  rw [calculate, calculateSource, h]

theorem calculate_of_ok {tree : Expr} (h : parse (scan code) = .ok tree) :
    calculate r code = (evaluate r tree).mapError .evaluation := by
  cases hevaluate : evaluate r tree <;> simp only [calculate, calculateSource, h, hevaluate, Except.mapError]

/-- A tree that is complete. -/
theorem attemptTree_eq {tree : Expr} (h : evaluate r tree ≠ .error .tooDeep) :
    attemptTree r code tree = ⟨traceTree r code tree, (evaluate r tree).mapError .evaluation⟩ := by
  have heval : evaluate r tree = eval r tree := evalWithin_eq_eval h
  have hnarrate : narrate r Platform.stackBudget tree = ⟨calls r tree, eval r tree⟩ := narrate_eq tree _ h
  rw [attemptTree, traceTree, hnarrate, heval]
  cases eval r tree with
  | error e => rfl
  | ok x => simp only [List.append_nil, Except.mapError]

/-- An expression that cannot be parsed. -/
theorem attempt_of_error {e : ParseFailure} (h : parse (scan code) = .error e) :
    attempt r code = ⟨trace r code, .error (.parsing e)⟩ := by
  have htask := Descent.task_steps (some nestingLimit) (scan code)
  rw [← parse, h] at htask
  simp only [attempt, trace, Descent.readings_steps, htask, h]

theorem account_of_error {e : ParseFailure} (h : parse (scan code) = .error e) :
    Account r code ((trace r code).map Record.line) := by
  have hcalculate : calculate r code = .error (.parsing e) := calculate_of_error h
  cases e with
  | scan e =>
    obtain ⟨hfailure, hlooked, -⟩ := parse_of_fault h
    simp only [trace, h, hlooked]
    rw [Record.map_line_begun, List.map_singleton, Record.line_failed]
    exact .fault e hfailure (isEnd_eq_false_of_failure hfailure) hcalculate
  | grammar e =>
    obtain ⟨before, behind, htokens, hlooked, hnoticed, hreached⟩ := (isLastRead_of_parse h).1
    simp only [trace, h, hlooked]
    rw [Record.map_line_begun, List.map_singleton, Record.line_failed]
    exact .grammar e before behind htokens hnoticed hreached hcalculate
  | unreadable lexeme => exact absurd h (parse_scan_ne_unreadable code lexeme)

/-- An expression that can be parsed. -/
theorem attempt_of_ok {front : List Token} {p : Int} {tree : Expr} (hscan : scan code = ⟨front ++ [.endMark p], none⟩)
    (hfront : ∀ t ∈ front, t.isEnd = false) (h : parse (scan code) = .ok tree) :
    attempt r code =
      ⟨.evaluating code :: (front ++ [Token.endMark p]).map .read ++ .parsed front tree ::
        (attemptTree r code tree).records, (attemptTree r code tree).outcome⟩ := by
  have htask := Descent.task_steps (some nestingLimit) (scan code)
  have hreadings := Descent.readings_steps code
  rw [← parse, h] at htask
  rw [hscan] at h htask hreadings
  rw [lookedAt_of_parse rfl hfront h] at hreadings
  simp only [attempt, hscan, hreadings, htask, Descent.consumed_steps rfl hfront h]

theorem account_of_ok {front : List Token} {tree : Expr} (hscan : scan code = ⟨front ++ [.endMark code.length], none⟩)
    (hfront : ∀ t ∈ front, t.isEnd = false) (h : parse (scan code) = .ok tree) :
    Account r code ((Record.evaluating code :: (front ++ [Token.endMark code.length]).map .read ++
      .parsed front tree :: traceTree r code tree).map Record.line) := by
  have hcalculate := calculate_of_ok h (r := r)
  rw [Record.map_line_begun, List.map_cons, Record.line_parsed, traceTree, calls_eq_completedCalls,
    @List.map_append _ _ Record.line, Record.map_line_called]
  cases hevaluate : evaluate r tree with
  | error e =>
    rw [hevaluate] at hcalculate
    have := Account.name front tree e hscan hfront h hcalculate
    rw [List.append_assoc, List.cons_append] at this
    rwa [List.map_singleton, Record.line_failed]
  | ok x =>
    rw [hevaluate] at hcalculate
    rw [List.map_nil, List.append_nil]
    exact .value front tree x hscan hfront h hcalculate

theorem log_of_ok {front : List Token} {p : Int} {tree : Expr} (hscan : scan code = ⟨front ++ [.endMark p], none⟩)
    (hfront : ∀ t ∈ front, t.isEnd = false) (h : parse (scan code) = .ok tree) :
    log r code = (Record.evaluating code :: (front ++ [Token.endMark p]).map .read ++
      .parsed front tree :: traceTree r code tree).flatMap Record.line := by
  rw [hscan] at h
  simp only [log, trace, hscan, h, lookedAt_of_parse rfl hfront h, List.flatMap_append, List.flatMap_cons,
    Record.line_parsed, Line.parsed_append_endMark]

/-- **An expression from step to step** has the outcome, and logs the lines, that it has as a whole. -/
theorem attempt_eq (h : calculate r code ≠ .error (.evaluation .tooDeep)) :
    (attempt r code).outcome = calculate r code ∧ (attempt r code).records.flatMap Record.line = log r code ∧
      Account r code ((attempt r code).records.map Record.line) := by
  cases hparse : parse (scan code) with
  | error e =>
    have hcalculate : calculate r code = .error (.parsing e) := calculate_of_error hparse
    rw [attempt_of_error hparse]
    exact ⟨hcalculate.symm, rfl, account_of_error hparse⟩
  | ok tree =>
    obtain ⟨front, hscan, htiling, -⟩ := accepted_of_parse hparse
    have hfront := htiling.isEnd_eq_false
    have hcalculate := calculate_of_ok hparse (r := r)
    have hdeep : evaluate r tree ≠ .error .tooDeep := by
      intro hdeep
      rw [hdeep] at hcalculate
      exact h hcalculate
    rw [attempt_of_ok hscan hfront hparse, attemptTree_eq hdeep]
    exact ⟨hcalculate.symm, (log_of_ok hscan hfront hparse).symm, account_of_ok hscan hfront hparse⟩

end Expression

/-! ## A run -/

/-- What has been written to the two channels. -/
structure Written where
  out : Text
  err : Text

namespace Written

def nothing : Written := ⟨[], []⟩

def print (w : Written) (text : Text) : Written := { w with out := w.out ++ text }

/-- Write a record to the log, if there is one. -/
def log (debug : Bool) (w : Written) (record : Record) : Written :=
  if debug then { w with err := w.err ++ record.line } else w

theorem foldl_log (debug : Bool) : ∀ (records : List Record) (w : Written),
    records.foldl (log debug) w = ⟨w.out, w.err ++ if debug then records.flatMap Record.line else []⟩
  | [], w => by
    cases debug <;> simp
  | record :: records, w => by
    rw [List.foldl_cons, foldl_log debug records]
    cases debug <;> simp [log, List.append_assoc]

end Written

/-- What a user is shown of an outcome. -/
def shownOf (code : Text) : Except Failure Binary64 → Answer
  | .ok x => ⟨true, x.resultText⟩
  | .error f => ⟨false, f.render code⟩

section Run

variable [Platform] {r : Registry} {code : Text}

theorem answer_eq_shownOf (r : Registry) (code : Text) : answer r code = shownOf code (calculate r code) := by
  rw [answer]
  cases calculate r code <;> rfl

namespace Invocation

/-- Work on an expression: what happens is logged, and then the answer is printed. -/
def respond (i : Invocation) (r : Registry) (w : Written) (code : Text) : Written :=
  let attempted := attempt r code
  (attempted.records.foldl (.log i.debug) w).print ((shownOf code attempted.outcome).text ++ ['\n'])

/-- Prompt for a line, and work on it unless it is blank. -/
def respondLine (i : Invocation) (r : Registry) (w : Written) (line : Text) : Written :=
  if line.all isBlank then w.print i.prompt else i.respond r (w.print i.prompt) line

/-- A run as it goes along. -/
def conduct (i : Invocation) (r : Registry) (input : Text) : Output :=
  match i.expression with
  | some code =>
    let w := i.respond r .nothing code
    ⟨if (shownOf code (attempt r code).outcome).success then 0 else 1, w.out, w.err⟩
  | none =>
    let w := ((inputLines input).foldl (i.respondLine r) .nothing).print (i.prompt ++ ['\n'])
    ⟨0, w.out, w.err⟩

/-- The expressions that a run answers, in order. -/
def answered (i : Invocation) (input : Text) : List Text :=
  match i.expression with
  | some code => [code]
  | none => (inputLines input).filter (!·.all isBlank)

variable {i : Invocation}

theorem respond_eq (h : calculate r code ≠ .error (.evaluation .tooDeep)) (w : Written) :
    i.respond r w code = ⟨w.out ++ ((answer r code).text ++ ['\n']), w.err ++ i.logOf r code⟩ := by
  obtain ⟨houtcome, hrecords, -⟩ := attempt_eq h
  rw [respond, houtcome, Written.foldl_log, hrecords, answer_eq_shownOf, logOf]
  rfl

theorem respondLine_eq {line : Text} (h : line.all isBlank = false → calculate r line ≠ .error (.evaluation .tooDeep))
    (w : Written) :
    i.respondLine r w line = ⟨w.out ++ (i.prompt ++ lineAnswer r line), w.err ++ i.lineLog r line⟩ := by
  rw [respondLine, lineAnswer, lineLog]
  cases hblank : line.all isBlank with
  | true => simp [Written.print]
  | false => simp [respond_eq (h hblank), Written.print, List.append_assoc]

theorem foldl_respondLine : ∀ (lines : List Text) (w : Written),
    (∀ line ∈ lines, line.all isBlank = false → calculate r line ≠ .error (.evaluation .tooDeep)) →
      lines.foldl (i.respondLine r) w =
        ⟨w.out ++ lines.flatMap (fun line => i.prompt ++ lineAnswer r line), w.err ++ lines.flatMap (i.lineLog r)⟩
  | [], w, _ => by simp
  | line :: lines, w, h => by
    rw [List.foldl_cons, respondLine_eq (h line List.mem_cons_self),
      foldl_respondLine lines _ fun line hline => h line (List.mem_cons_of_mem _ hline)]
    simp [List.append_assoc]

/-- **A run as it goes along** leaves what it leaves as a whole. -/
theorem conduct_eq_run {input : Text}
    (h : ∀ code ∈ i.answered input, calculate r code ≠ .error (.evaluation .tooDeep)) :
    i.conduct r input = i.run r input := by
  rw [conduct, run]
  rw [answered] at h
  cases hexpression : i.expression with
  | some code =>
    rw [hexpression] at h
    have hcode := h code (List.mem_singleton_self code)
    simp only [respond_eq hcode, (attempt_eq hcode).1, ← answer_eq_shownOf]
    rfl
  | none =>
    rw [hexpression] at h
    have hlines : ∀ line ∈ inputLines input, line.all isBlank = false →
        calculate r line ≠ .error (.evaluation .tooDeep) :=
      fun line hline hblank => h line (List.mem_filter.2 ⟨hline, by rw [hblank]; rfl⟩)
    simp only [foldl_respondLine _ _ hlines]
    simp [prompting, Written.print, Written.nothing, List.append_assoc]

theorem flatMap_lineLog : ∀ lines : List Text,
    lines.flatMap ({ i with debug := true }.lineLog r) = (lines.filter (!·.all isBlank)).flatMap (log r)
  | [] => rfl
  | line :: lines => by
    rw [List.flatMap_cons, flatMap_lineLog lines, lineLog]
    cases hblank : line.all isBlank with
    | true => simp [hblank]
    | false => simp [hblank, logOf]

/-- With the log on, a run logs the expressions that it answers, one behind the other. -/
theorem err_run (i : Invocation) (r : Registry) (input : Text) :
    ({ i with debug := true }.run r input).err = (i.answered input).flatMap (log r) := by
  obtain ⟨debug, prompt, expression⟩ := i
  cases expression with
  | some code => simp [run, once, logOf, answered]
  | none => exact flatMap_lineLog _

end Invocation

end Run

/-- **The log is faithful and changes nothing.**  For any input whose expressions are not too deep, a run with the log
on writes the same answers as one with the log off, and has the same exit status; with the log off nothing is logged.
With the log on, what is logged is what the expressions that are answered log, one behind the other, and this depends on
the expression alone: it is the text of one of the four accounts, whose tokens stand in the order of the text, each
once.  And with the log on or off the run leaves what the program leaves that goes along from token to token, call to
call and line to line. -/
theorem debug_log_faithful [Platform] (i : Invocation) (r : Registry) (input : Text)
    (h : ∀ code ∈ i.answered input, calculate r code ≠ .error (.evaluation .tooDeep)) :
    let quiet := { i with debug := false }
    let loud := { i with debug := true }
    (loud.run r input).out = (quiet.run r input).out ∧ (loud.run r input).status = (quiet.run r input).status ∧
    (quiet.run r input).err = [] ∧
    (loud.run r input).err = (i.answered input).flatMap (log r) ∧
    (∀ code ∈ i.answered input, (∃ lines, log r code = lines.flatten ∧ Account r code lines) ∧
      (scan code).tokens.Pairwise fun a b => a.position < b.position) ∧
    quiet.conduct r input = quiet.run r input ∧ loud.conduct r input = loud.run r input := by
  intro quiet loud
  have hsilent : (quiet.run r input).err = [] := by
    obtain ⟨debug, prompt, expression⟩ := i
    cases expression with
    | some code => rfl
    | none => exact List.flatMap_eq_nil_iff.2 fun line _ => ite_self _
  have hsame : (loud.run r input).out = (quiet.run r input).out ∧
      (loud.run r input).status = (quiet.run r input).status := by
    obtain ⟨debug, prompt, expression⟩ := i
    cases expression <;> exact ⟨rfl, rfl⟩
  have haccount : ∀ code ∈ i.answered input, ∃ lines, log r code = lines.flatten ∧ Account r code lines := by
    intro code hcode
    obtain ⟨-, hlog, haccount⟩ := attempt_eq (h code hcode)
    exact ⟨_, hlog.symm.trans List.flatMap_def, haccount⟩
  exact ⟨hsame.1, hsame.2, hsilent, Invocation.err_run i r input,
    fun code hcode => ⟨haccount code hcode, pairwise_position_scan code⟩, Invocation.conduct_eq_run h,
    Invocation.conduct_eq_run h⟩

/-- Of the five lines the second one is blank, the third one fails behind a call that is completed, the fourth one at a
bracket that cannot be there, and the last one in a number. -/
theorem debug_log_faithful_five_lines :
    let input := "√4\n \nmax(1,2)+x\n2)1\n1+2e".toList
    let codes := ["√4".toList, "max(1,2)+x".toList, "2)1".toList, "1+2e".toList]
    let engine := "DEBUG exprcalc: ".toList
    let parser := "DEBUG exprcalc.parser: ".toList
    let runtime := "DEBUG exprcalc.runtime: ".toList
    let repl := "DEBUG repl: ".toList
    Invocation.plain.answered input = codes ∧
    (∀ code ∈ codes, calculate .builtin code ≠ .error (.evaluation .tooDeep)) ∧
    (∀ code ∈ codes, ∃ lines, log .builtin code = lines.flatten ∧ Account .builtin code lines) ∧
    ({ Invocation.plain with debug := true }.run .builtin input).err = [
      engine ++ "Evaluating '√4'\n".toList,
      parser ++ "Read token <ROOT>√ at 0\n".toList,
      parser ++ "Read token <NUMBER>4 at 1\n".toList,
      parser ++ "Read token <EXPR_END> at 2\n".toList,
      parser ++ "Parsed expression '√4': ".toList
        ++ "UnaryOp(operator=SQRT, operand=Literal(value=4.0), fixity=PREFIX)\n".toList,
      engine ++ "Evaluating 'max(1,2)+x'\n".toList,
      parser ++ "Read token <IDENTIFIER>max at 0\n".toList,
      parser ++ "Read token <BRACKET_OPEN>( at 3\n".toList,
      parser ++ "Read token <NUMBER>1 at 4\n".toList,
      parser ++ "Read token <COMMA>, at 5\n".toList,
      parser ++ "Read token <NUMBER>2 at 6\n".toList,
      parser ++ "Read token <BRACKET_CLOSE>) at 7\n".toList,
      parser ++ "Read token <PLUS>+ at 8\n".toList,
      parser ++ "Read token <IDENTIFIER>x at 9\n".toList,
      parser ++ "Read token <EXPR_END> at 10\n".toList,
      parser ++ "Parsed expression 'max(1, 2) + x': ".toList
        ++ "BinaryOp(operator=ADD, left=".toList
        ++ "Call(name='max', arguments=[".toList
        ++ "Literal(value=1.0), Literal(value=2.0)".toList ++ "], position=0), ".toList
        ++ "right=ConstantRef(name='x', position=9))\n".toList,
      runtime ++ "max(1.0, 2.0) = 2.0\n".toList,
      repl ++ "Failed to evaluate 'max(1,2)+x': ".toList ++ "EvalError UNKNOWN_CONSTANT\n".toList,
      engine ++ "Evaluating '2)1'\n".toList,
      parser ++ "Read token <NUMBER>2 at 0\n".toList,
      parser ++ "Read token <BRACKET_CLOSE>) at 1\n".toList,
      repl ++ "Failed to evaluate '2)1': ".toList ++ "ParseError TRAILING_INPUT\n".toList,
      engine ++ "Evaluating '1+2e'\n".toList,
      parser ++ "Read token <NUMBER>1 at 0\n".toList,
      parser ++ "Read token <PLUS>+ at 1\n".toList,
      repl ++ "Failed to evaluate '1+2e': ".toList ++ "LexError INVALID_NUMBER\n".toList].flatten := by
  intro input codes engine parser runtime repl
  have hcodes : Invocation.plain.answered input = codes := by decide +kernel
  have hdeep : ∀ code ∈ codes, calculate .builtin code ≠ .error (.evaluation .tooDeep) := by decide +kernel
  rw [← hcodes] at hdeep ⊢
  obtain ⟨-, -, -, -, haccount, -⟩ := debug_log_faithful .plain .builtin input hdeep
  exact ⟨rfl, hdeep, fun code hcode => (haccount code hcode).1, by decide +kernel⟩

end Calculator
