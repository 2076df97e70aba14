import Calculator.Answer
import Calculator.Function.Builtin
import Calculator.Proofs.Binary64.Traps
import Calculator.Proofs.Expr.Descent
import Calculator.Proofs.Expr.Isolation
import Mathlib.Data.List.Forall2
/-!
# Only failures escape

The calculator as it stands on operations that trap: numbers are converted, operators and functions are looked up in
tables, arguments are spread over parameters, and each of these may trap as well.  The evaluation that passes traps on
gives what the total one gives, node by node (`Guarded.evalWithin_eq`), and a text never has a number token that is no
number.  So nothing but a failure of the calculator comes out beside a value (`only_failures_escape`).

The log is off here.  To log an expression its tree is written out, node in node and outside of every guard, and a tree
may be too deep for that though it is not too deep to evaluate.
-/
namespace Calculator

/-- What keeps a calculation from a value: a failure that the calculator knows, or a trap that it let through. -/
inductive Raised where
  | failure (f : Failure)
  | trap (t : Trap)

namespace Raised

def evaluation (e : EvalError) : Raised := failure (.evaluation e)

/-- A number token that is no number is a conversion that trapped. -/
def parsing : ParseFailure → Raised
  | .unreadable _ => trap .invalid
  | e => failure (.parsing e)

end Raised

namespace Checked

/-- The number of a text that has one. -/
def float (t : Text) : Except Trap Binary64 :=
  match readNumber? t with
  | some x => .ok x
  | none => .error .invalid

/-- The entry of a table for a key. -/
def lookUp {α β : Type} [BEq α] (table : List (α × β)) (key : α) : Except Trap β :=
  match table.lookup key with
  | some entry => .ok entry
  | none => .error .missing

end Checked

/-! ## Parameters -/

/-- A function as it is registered. -/
structure Registered where
  name : Text
  arity : Arity
  call : List Binary64 → Except Trap Binary64

namespace Registered

/-- A function of one parameter. -/
def ofOne (name : String) (f : Binary64 → Except Trap Binary64) : Registered :=
  ⟨name.toList, ⟨1, some 1⟩, fun
    | [x] => f x
    | _ => .error .arguments⟩

def ofTwo (name : String) (f : Binary64 → Binary64 → Except Trap Binary64) : Registered :=
  ⟨name.toList, ⟨2, some 2⟩, fun
    | [x, y] => f x y
    | _ => .error .arguments⟩

/-- A function of two parameters, the second with a default. -/
def ofOneOrTwo (name : String) (second : Binary64) (f : Binary64 → Binary64 → Except Trap Binary64) : Registered :=
  ⟨name.toList, ⟨1, some 2⟩, fun
    | [x] => f x second
    | [x, y] => f x y
    | _ => .error .arguments⟩

/-- A function of any number of arguments, but one at least. -/
def ofMany (name : String) (f : List Binary64 → Except Trap Binary64) : Registered := ⟨name.toList, ⟨1, none⟩, f⟩

end Registered

/-! ## The tables -/

namespace Guarded

open Registered

def functions : List Registered := [
  ofOne "sqrt" (Guarded.apply Binary64.sqrt),
  ofOne "abs" fun x => .ok x.abs,
  ofOne "exp" Guarded.exp,
  ofOne "ln" (Guarded.logarithm Float.log),
  ofOneOrTwo "log" .e Guarded.log,
  ofOne "log10" (Guarded.logarithm Float.log10),
  ofOne "log2" (Guarded.logarithm Float.log2),
  ofOne "sin" (Guarded.apply Binary64.sin),
  ofOne "cos" (Guarded.apply Binary64.cos),
  ofOne "tan" (Guarded.apply Binary64.tan),
  ofOne "asin" (Guarded.apply Binary64.asin),
  ofOne "acos" (Guarded.apply Binary64.acos),
  ofOne "atan" fun x => .ok x.atan,
  ofTwo "atan2" fun y x => .ok (y.atan2 x),
  ofOne "degrees" fun x => .ok x.degrees,
  ofOne "radians" fun x => .ok x.radians,
  ofOne "floor" Guarded.floor,
  ofOne "ceil" Guarded.ceil,
  ofOne "trunc" Guarded.trunc,
  ofOneOrTwo "round" (.zero false) Guarded.round,
  ofMany "min" (Guarded.extreme fun y least => y.lt least),
  ofMany "max" (Guarded.extreme fun y greatest => greatest.lt y)]

def unaryTable [Platform] (between : Binary64 → Except Trap Binary64) :
    List (UnaryOp × (Binary64 → Except Trap Binary64)) := [
  (.neg, fun x => .ok x.neg),
  (.pos, .ok),
  (.sqrt, Guarded.apply Binary64.sqrt),
  (.factorial, Guarded.factorial between)]

def binaryTable : List (BinaryOp × (Binary64 → Binary64 → Except Trap Binary64)) := [
  (.add, fun x y => .ok (x.add y)),
  (.sub, fun x y => .ok (x.sub y)),
  (.mul, fun x y => .ok (x.mul y)),
  (.div, Guarded.divide),
  (.mod, Guarded.remainder),
  (.pow, Guarded.power)]

/-! ## Evaluation -/

variable (between : Binary64 → Except Trap Binary64)

def applyUnary [Platform] (op : UnaryOp) (x : Binary64) : Except Trap Binary64 := do
  (← Checked.lookUp (unaryTable between) op) x

def applyBinary (op : BinaryOp) (x y : Binary64) : Except Trap Binary64 := do
  (← Checked.lookUp binaryTable op) x y

/-- The function that a call with a number of arguments means. -/
def resolve (name : Text) (position : Option Int) (given : Nat) : Except EvalError Registered :=
  match functions.find? fun g => caseFold g.name == caseFold name with
  | none => .error (.unknownFunction name position)
  | some g =>
    if g.arity.accepts given then .ok g else .error (.arityMismatch name position g.name g.arity given)

mutual

/-- The value of a tree, with `budget` left for the levels below its root. -/
def evalWithin [Platform] (budget : Nat) : Expr → Except Raised Binary64
  | .literal value => .ok value
  | .constant name position => (resolveConstant name position).mapError .evaluation
  | .unary op operand =>
    if budget = 0 then .error (.evaluation .tooDeep)
    else do
      let x ← evalWithin (budget - 1) operand
      (applyUnary between op x).mapError .trap
  | .binary op left right =>
    if budget = 0 then .error (.evaluation .tooDeep)
    else do
      let x ← evalWithin (budget - 1) left
      let y ← evalWithin (budget - 1) right
      (applyBinary op x y).mapError .trap
  | .call name arguments position => do
    let g ← (resolve name position arguments.length).mapError .evaluation
    let values ← evalAllWithin budget arguments
    (g.call values).mapError .trap

/-- The values of the arguments of a call, with `budget` left for the levels below the call. -/
def evalAllWithin [Platform] (budget : Nat) : List Expr → Except Raised (List Binary64)
  | [] => .ok []
  | e :: rest =>
    if budget < callCost then .error (.evaluation .tooDeep)
    else do
      let x ← evalWithin (budget - callCost) e
      let values ← evalAllWithin budget rest
      return x :: values

end

/-- The value of an expression. -/
def calculate [Platform] (code : Text) : Except Raised Binary64 := do
  let tree ← (parse (scan code)).mapError .parsing
  evalWithin between Platform.stackBudget tree

/-! ## Tables are complete -/

variable {between}

/-- **Every operator has an implementation**, and it does not trap. -/
theorem applyUnary_eq [Platform] (op : UnaryOp) (x : Binary64) : applyUnary between op x = .ok (op.apply x) := by
  cases op with
  | neg => rfl
  | pos => rfl
  | sqrt => exact apply_eq Binary64.sqrt x
  | factorial => exact factorial_eq between x

theorem applyBinary_eq (op : BinaryOp) (x y : Binary64) : applyBinary op x y = .ok (op.apply x y) := by
  cases op with
  | add => rfl
  | sub => rfl
  | mul => rfl
  | div => exact divide_eq x y
  | mod => exact remainder_eq x y
  | pow => exact power_eq x y

/-- A registered function has the name and the arity of a function, and for as many arguments as the arity accepts it
does not trap and gives what the body gives. -/
structure Implements (g : Registered) (f : Function) : Prop where
  name : g.name = f.name
  arity : g.arity = f.arity
  call : ∀ values : List Binary64, f.arity.accepts values.length = true →
    g.call values = .ok (f.body.apply values).toBinary64

theorem accepts_fixed {count given : Nat} (h : Arity.accepts ⟨count, some count⟩ given = true) : given = count := by
  simp only [Arity.accepts, Option.all_some, Bool.and_eq_true, decide_eq_true_eq] at h
  omega

theorem accepts_between {least most given : Nat} (h : Arity.accepts ⟨least, some most⟩ given = true) :
    least ≤ given ∧ given ≤ most := by
  simp only [Arity.accepts, Option.all_some, Bool.and_eq_true, decide_eq_true_eq] at h
  omega

namespace Implements

variable {name : String}

theorem ofOne {f : Binary64 → Except Trap Binary64} {f' : Binary64 → Binary64} (h : ∀ x, f x = .ok (f' x)) :
    Implements (Registered.ofOne name f) (Builtin.ofOne name f') where
  name := rfl
  arity := rfl
  call values hcount := by
    obtain ⟨x, rfl⟩ := List.length_eq_one_iff.1 (@accepts_fixed 1 _ hcount)
    exact h x

theorem ofTwo {f : Binary64 → Binary64 → Except Trap Binary64} {f' : Binary64 → Binary64 → Binary64}
    (h : ∀ x y, f x y = .ok (f' x y)) :
    Implements (Registered.ofTwo name f) ⟨name.toList, ⟨2, some 2⟩, .two f'⟩ where
  name := rfl
  arity := rfl
  call values hcount := by
    obtain ⟨x, y, rfl⟩ := List.length_eq_two.1 (@accepts_fixed 2 _ hcount)
    exact h x y

theorem ofOneOrTwo {second : Binary64} {f : Binary64 → Binary64 → Except Trap Binary64}
    {f' : Binary64 → Binary64 → Binary64} (h : ∀ x y, f x y = .ok (f' x y)) :
    Implements (Registered.ofOneOrTwo name second f) ⟨name.toList, ⟨1, some 2⟩, .oneOrTwo second f'⟩ where
  name := rfl
  arity := rfl
  call values hcount := by
    obtain ⟨hleast, hmost⟩ := @accepts_between 1 2 _ hcount
    match values, hleast, hmost with
    | [x], _, _ => exact h x second
    | [x, y], _, _ => exact h x y

theorem ofMany {f : List Binary64 → Except Trap Binary64} {f' : Binary64 → List Binary64 → Binary64}
    (h : ∀ x rest, f (x :: rest) = .ok (f' x rest)) :
    Implements (Registered.ofMany name f) ⟨name.toList, ⟨1, none⟩, .oneOrMore f'⟩ where
  name := rfl
  arity := rfl
  call values hcount := by
    match values, hcount with
    | x :: rest, _ => exact h x rest

end Implements

/-- **Every function of the table is implemented.** -/
theorem functions_implement : List.Forall₂ Implements functions Builtin.functions :=
  .cons (.ofOne (apply_eq _)) <|
  .cons (.ofOne fun _ => rfl) <|
  .cons (.ofOne exp_eq) <|
  .cons (.ofOne (logarithm_eq _)) <|
  .cons (.ofOneOrTwo log_eq) <|
  .cons (.ofOne (logarithm_eq _)) <|
  .cons (.ofOne (logarithm_eq _)) <|
  .cons (.ofOne (apply_eq _)) <|
  .cons (.ofOne (apply_eq _)) <|
  .cons (.ofOne (apply_eq _)) <|
  .cons (.ofOne (apply_eq _)) <|
  .cons (.ofOne (apply_eq _)) <|
  .cons (.ofOne fun _ => rfl) <|
  .cons (.ofTwo fun _ _ => rfl) <|
  .cons (.ofOne fun _ => rfl) <|
  .cons (.ofOne fun _ => rfl) <|
  .cons (.ofOne floor_eq) <|
  .cons (.ofOne ceil_eq) <|
  .cons (.ofOne trunc_eq) <|
  .cons (.ofOneOrTwo round_eq) <|
  .cons (.ofMany (extreme_eq _)) <|
  .cons (.ofMany (extreme_eq _)) .nil

theorem find?_implements {gs : List Registered} {fs : List Function} (h : List.Forall₂ Implements gs fs) (key : Text) :
    (gs.find? (fun g => caseFold g.name == key) = none ∧ fs.find? (fun f => f.key == key) = none) ∨
      ∃ g f, gs.find? (fun g => caseFold g.name == key) = some g ∧ fs.find? (fun f => f.key == key) = some f ∧
        Implements g f := by
  induction h with
  | nil => exact .inl ⟨rfl, rfl⟩
  | @cons g f gs fs hgf hrest ih =>
    rw [List.find?_cons, List.find?_cons, Function.key, ← hgf.name]
    cases caseFold g.name == key with
    | true => exact .inr ⟨g, f, rfl, rfl, hgf⟩
    | false => exact ih

/-- **A call means the implementation of the function that it means**, or is wrong in the same way. -/
theorem resolve_cases (name : Text) (position : Option Int) (given : Nat) :
    (∃ e, resolve name position given = .error e ∧ Registry.builtin.resolve name position given = .error e) ∨
      ∃ g f, resolve name position given = .ok g ∧ Registry.builtin.resolve name position given = .ok f ∧
        Implements g f ∧ f.arity.accepts given = true := by
  rw [resolve, Registry.resolve, Registry.find?]
  obtain ⟨hg, hf⟩ | ⟨g, f, hg, hf, hgf⟩ := find?_implements functions_implement (caseFold name)
  · rw [hg, show Registry.builtin.functions = Builtin.functions from rfl, hf]
    exact .inl ⟨_, rfl, rfl⟩
  · rw [hg, show Registry.builtin.functions = Builtin.functions from rfl, hf]
    simp only [hgf.name, hgf.arity]
    cases haccepts : f.arity.accepts given with
    | true => exact .inr ⟨g, f, rfl, rfl, hgf, haccepts⟩
    | false => exact .inl ⟨_, rfl, rfl⟩

/-! ## No trap is let through -/

theorem length_of_evalAllWithin [Platform] {r : Registry} {budget : Nat} : ∀ {es : List Expr} {values : List Binary64},
    Calculator.evalAllWithin r budget es = .ok values → values.length = es.length
  | [], values, h => by
    cases h
    rfl
  | e :: rest, values, h => by
    rw [Calculator.evalAllWithin] at h
    split at h
    · cases h
    · split at h
      · cases h
      · split at h
        · cases h
        · next hrest =>
          cases h
          exact congrArg (· + 1) (length_of_evalAllWithin hrest)

mutual

/-- **Each node gives what it gives without traps**, a value or the same error. -/
theorem evalWithin_eq [Platform] : ∀ (budget : Nat) (e : Expr),
    evalWithin between budget e = (Calculator.evalWithin .builtin budget e).mapError Raised.evaluation
  | budget, .literal value => by
    rw [evalWithin, Calculator.evalWithin]
    rfl
  | budget, .constant name position => by
    rw [evalWithin, Calculator.evalWithin]
  | budget, .unary op operand => by
    rw [evalWithin, Calculator.evalWithin, evalWithin_eq (budget - 1) operand]
    by_cases hbudget : budget = 0
    · rw [if_pos hbudget, if_pos hbudget]
      rfl
    · rw [if_neg hbudget, if_neg hbudget]
      cases Calculator.evalWithin .builtin (budget - 1) operand with
      | error e => rfl
      | ok x => exact congrArg (·.mapError Raised.trap) (applyUnary_eq op x)
  | budget, .binary op left right => by
    rw [evalWithin, Calculator.evalWithin, evalWithin_eq (budget - 1) left, evalWithin_eq (budget - 1) right]
    by_cases hbudget : budget = 0
    · rw [if_pos hbudget, if_pos hbudget]
      rfl
    · rw [if_neg hbudget, if_neg hbudget]
      cases Calculator.evalWithin .builtin (budget - 1) left with
      | error e => rfl
      | ok x =>
        cases Calculator.evalWithin .builtin (budget - 1) right with
        | error e => rfl
        | ok y => exact congrArg (·.mapError Raised.trap) (applyBinary_eq op x y)
  | budget, .call name arguments position => by
    rw [evalWithin, Calculator.evalWithin, evalAllWithin_eq budget arguments]
    obtain ⟨e, hg, hf⟩ | ⟨g, f, hg, hf, hgf, haccepts⟩ := resolve_cases name position arguments.length
    · rw [hg, hf]
      rfl
    · rw [hg, hf]
      cases hvalues : Calculator.evalAllWithin .builtin budget arguments with
      | error e => rfl
      | ok values =>
        rw [← length_of_evalAllWithin hvalues] at haccepts
        exact congrArg (·.mapError Raised.trap) (hgf.call values haccepts)

theorem evalAllWithin_eq [Platform] : ∀ (budget : Nat) (es : List Expr),
    evalAllWithin between budget es = (Calculator.evalAllWithin .builtin budget es).mapError Raised.evaluation
  | budget, [] => by
    rw [evalAllWithin, Calculator.evalAllWithin]
    rfl
  | budget, e :: rest => by
    rw [evalAllWithin, Calculator.evalAllWithin, evalWithin_eq (budget - callCost) e, evalAllWithin_eq budget rest]
    by_cases hbudget : budget < callCost
    · rw [if_pos hbudget, if_pos hbudget]
      rfl
    · rw [if_neg hbudget, if_neg hbudget]
      cases Calculator.evalWithin .builtin (budget - callCost) e with
      | error e => rfl
      | ok x => cases Calculator.evalAllWithin .builtin budget rest <;> rfl

end

end Guarded

/-! ## Whole calculations -/

/-- All that stands between the operations that trap and a calculation. -/
structure Guards [Platform] (between : Binary64 → Except Trap Binary64) : Prop where
  /-- Every operator has an entry in its table. -/
  unary : ∀ op, Untrapped (Checked.lookUp (Guarded.unaryTable between) op)
  binary : ∀ op, Untrapped (Checked.lookUp Guarded.binaryTable op)
  /-- A function takes every number of arguments that its arity accepts, whatever they are. -/
  call : ∀ g ∈ Guarded.functions, ∀ values : List Binary64, g.arity.accepts values.length = true →
    Untrapped (g.call values)
  /-- Arithmetic ends in a value. -/
  divide : ∀ x y, Untrapped (Guarded.divide x y)
  remainder : ∀ x y, Untrapped (Guarded.remainder x y)
  power : ∀ x y, Untrapped (Guarded.power x y)
  factorial : ∀ x, Untrapped (Guarded.factorial between x)
  /-- So does what is invalid or out of range at worst. -/
  ieee : ∀ r : Except Trap Binary64, (∀ t, r = .error t → t = .invalid ∨ t = .overflow) → Untrapped (Guarded.ieee r)
  /-- No conversion to a whole number meets an infinity or a NaN, and none back leaves the range. -/
  floor : ∀ x, Untrapped (Guarded.floor x)
  ceil : ∀ x, Untrapped (Guarded.ceil x)
  trunc : ∀ x, Untrapped (Guarded.trunc x)
  /-- No rounded decimal has more digits than its context. -/
  quantize : ∀ x places, x.isFinite = true → places ≤ Binary64.exactPlaces → Untrapped (Checked.quantize x places)
  round : ∀ x places, Untrapped (Guarded.round x places)

namespace Guarded

variable (between : Binary64 → Except Trap Binary64)

theorem untrapped_call {gs : List Registered} {fs : List Function} (h : List.Forall₂ Implements gs fs) :
    ∀ g ∈ gs, ∀ values : List Binary64, g.arity.accepts values.length = true → Untrapped (g.call values) := by
  induction h with
  | nil => nofun
  | cons hgf _ ih =>
    intro g hg values haccepts
    rcases List.mem_cons.1 hg with rfl | hg
    · rw [hgf.arity] at haccepts
      exact ⟨_, hgf.call values haccepts⟩
    · exact ih g hg values haccepts

theorem guards [Platform] : Guards between where
  unary op := by cases op <;> exact ⟨_, rfl⟩
  binary op := by cases op <;> exact ⟨_, rfl⟩
  call := untrapped_call functions_implement
  divide x y := ⟨_, divide_eq x y⟩
  remainder x y := ⟨_, remainder_eq x y⟩
  power x y := ⟨_, power_eq x y⟩
  factorial x := ⟨_, factorial_eq between x⟩
  ieee _ := untrapped_ieee
  floor x := ⟨_, floor_eq x⟩
  ceil x := ⟨_, ceil_eq x⟩
  trunc x := ⟨_, trunc_eq x⟩
  quantize _ _ hx hplaces := ⟨_, quantize_eq hx hplaces⟩
  round x places := ⟨_, round_eq x places⟩

/-- The calculation that passes traps on is the calculation. -/
theorem calculate_eq [Platform] (code : Text) :
    calculate between code = (Calculator.calculate .builtin code).mapError Raised.failure := by
  rw [calculate, Calculator.calculate, calculateSource]
  have hread := parse_scan_ne_unreadable code
  cases hparse : parse (scan code) with
  | error e =>
    cases e with
    | scan e => rfl
    | grammar e => rfl
    | unreadable lexeme => exact absurd hparse (hread lexeme)
  | ok tree =>
    simp only [evaluate]
    refine (evalWithin_eq Platform.stackBudget tree).trans ?_
    cases Calculator.evalWithin .builtin Platform.stackBudget tree <;> rfl

end Guarded

theorem category_of_calculate [Platform] {r : Registry} {code : Text} {f : Failure} (h : calculate r code = .error f) :
    f.category = "LexError".toList ∨ f.category = "ParseError".toList ∨ f.category = "EvalError".toList := by
  rw [calculate, calculateSource] at h
  have hread := parse_scan_ne_unreadable code
  cases hparse : parse (scan code) with
  | error e =>
    rw [hparse] at h
    cases h
    cases e with
    | scan e => exact .inl rfl
    | grammar e => exact .inr (.inl rfl)
    | unreadable lexeme => exact absurd hparse (hread lexeme)
  | ok tree =>
    rw [hparse] at h
    simp only at h
    split at h
    · cases h
      exact .inr (.inr rfl)
    · cases h

/-- **Only failures escape.**  Every text has a value, or a failure of the scanner, the parser or the evaluation, also
where all operations trap: what comes out is what the calculator answers.  The number tokens of a text are converted,
the descent into it never has more calls active than the nesting limit, and every guard holds. -/
theorem only_failures_escape [Platform] (between : Binary64 → Except Trap Binary64) (code : Text) :
    ((∃ x, Guarded.calculate between code = .ok x) ∨
      ∃ f, Guarded.calculate between code = .error (.failure f) ∧
        (f.category = "LexError".toList ∨ f.category = "ParseError".toList ∨ f.category = "EvalError".toList)) ∧
    Guarded.calculate between code = (calculate .builtin code).mapError .failure ∧
    (∀ t ∈ (scan code).tokens, t.kind = .number → Untrapped (Checked.float t.lexeme)) ∧
    (∀ k, (Descent.moment (some nestingLimit) (scan code) k).calls.length ≤ nestingLimit) ∧
    Guards between := by
  refine ⟨?_, Guarded.calculate_eq between code, fun t ht hk => ?_, fun k => ?_, Guarded.guards between⟩
  · rw [Guarded.calculate_eq]
    cases h : calculate .builtin code with
    | ok x => exact .inl ⟨x, rfl⟩
    | error f => exact .inr ⟨f, rfl, category_of_calculate h⟩
  · obtain ⟨x, hx⟩ := scan_readable code t ht hk
    exact ⟨x, by rw [Checked.float, hx]⟩
  · exact within_some.1 (Descent.moment_consistent _ _ k).1.within

end Calculator
