import Calculator.Answer
import Calculator.Function.Builtin
import Calculator.Proofs.Evaluation.Walk
import Calculator.Proofs.Expr.Accepted
/-!
# Errors about names

Which names of an expression are wrong can be read off its tokens: a name is a constant or, before a bracket, a function
with as many arguments as the bracket holds.  Grouping moves the names of an expression into a tree, but the walk of the
evaluation comes to them in the order of the text (`Phrase.firstOffence?_eq`), so the error of an evaluation is always
about the leftmost name that is wrong.
-/
namespace Calculator

/-! ## Names in a row of tokens -/

/-- The arguments up to the end of the bracket, if `depth` brackets are open inside it and the token at hand belongs to
argument number `count`. -/
def argumentsFrom (depth count : Nat) : List Token → Nat
  | [] => count
  | t :: rest =>
    match t.kind with
    | .bracketOpen => argumentsFrom (depth + 1) count rest
    | .bracketClose => if depth = 0 then count else argumentsFrom (depth - 1) count rest
    | .comma => argumentsFrom depth (if depth = 0 then count + 1 else count) rest
    | _ => argumentsFrom depth count rest

/-- How many arguments are written behind the bracket of a call. -/
def argumentCount : List Token → Nat
  | [] => 0
  | t :: rest => if t.kind = .bracketClose then 0 else argumentsFrom 0 1 (t :: rest)

def wrongConstant? (t : Token) : Option EvalError :=
  match constant? t.lexeme with
  | some _ => none
  | none => some (.unknownConstant t.lexeme (some t.position))

def wrongCall? (r : Registry) (t : Token) (given : Nat) : Option EvalError :=
  match r.find? t.lexeme with
  | none => some (.unknownFunction t.lexeme (some t.position))
  | some f =>
    if f.arity.accepts given then none
    else some (.arityMismatch t.lexeme (some t.position) f.name f.arity given)

/-- What is wrong with a token, given the tokens behind it. -/
def offence? (r : Registry) (t : Token) (rest : List Token) : Option EvalError :=
  if t.kind = .identifier then
    match rest with
    | [] => wrongConstant? t
    | opening :: inside =>
      if opening.kind = .bracketOpen then wrongCall? r t (argumentCount inside) else wrongConstant? t
  else none

/-- One of some tokens is wrong. -/
def Offends (r : Registry) (ts : List Token) (t : Token) (e : EvalError) : Prop :=
  ∃ before rest, ts = before ++ t :: rest ∧ offence? r t rest = some e

def firstOffence? (r : Registry) : List Token → Option EvalError
  | [] => none
  | t :: rest => (offence? r t rest).or (firstOffence? r rest)

variable {r : Registry} {limit : Nat}

theorem wrongConstant?_eq (t : Token) : wrongConstant? t = failure? (resolveConstant t.lexeme (some t.position)) := by
  unfold wrongConstant? resolveConstant
  cases constant? t.lexeme <;> rfl

theorem wrongCall?_eq (t : Token) (given : Nat) :
    wrongCall? r t given = failure? (r.resolve t.lexeme (some t.position) given) := by
  unfold wrongCall? Registry.resolve
  cases r.find? t.lexeme with
  | none => rfl
  | some f => cases hf : f.arity.accepts given <;> simp [hf, failure?]

theorem offence?_of_ne {t : Token} {rest : List Token} (h : t.kind ≠ .identifier) : offence? r t rest = none := if_neg h

theorem offence?_constant {t : Token} {rest : List Token} (h : t.kind = .identifier)
    (hnext : ∀ next, rest.head? = some next → next.kind ≠ .bracketOpen) : offence? r t rest = wrongConstant? t := by
  cases rest with
  | nil => exact if_pos h
  | cons next rest =>
    have hk : next.kind ≠ .bracketOpen := hnext next rfl
    simp only [offence?, h, hk, if_true, if_false]

theorem offence?_call {t opening : Token} {inside : List Token} (h : t.kind = .identifier)
    (ho : opening.kind = .bracketOpen) : offence? r t (opening :: inside) = wrongCall? r t (argumentCount inside) := by
  simp only [offence?, h, ho, if_true]

/-! ## Counting arguments -/

theorem argumentsFrom_open {t : Token} {depth count : Nat} {rest : List Token} (h : t.kind = .bracketOpen) :
    argumentsFrom depth count (t :: rest) = argumentsFrom (depth + 1) count rest := by
  simp only [argumentsFrom, h]

theorem argumentsFrom_close {t : Token} {depth count : Nat} {rest : List Token} (h : t.kind = .bracketClose) :
    argumentsFrom (depth + 1) count (t :: rest) = argumentsFrom depth count rest := by
  simp only [argumentsFrom, h, Nat.add_one_ne_zero, if_false, Nat.add_sub_cancel]

theorem argumentsFrom_other {t : Token} {depth count : Nat} {rest : List Token}
    (h : t.kind ≠ .bracketOpen ∧ t.kind ≠ .bracketClose ∧ t.kind ≠ .comma) :
    argumentsFrom depth count (t :: rest) = argumentsFrom depth count rest := by
  obtain ⟨ho, hc, hcomma⟩ := h
  rw [argumentsFrom]
  split
  · exact absurd ‹_› ho
  · exact absurd ‹_› hc
  · exact absurd ‹_› hcomma
  · rfl

theorem ne_of_sign? {k : TokenKind} {op : UnaryOp} (h : k.sign? = some op) :
    k ≠ .identifier ∧ k ≠ .bracketOpen ∧ k ≠ .bracketClose ∧ k ≠ .comma := by
  cases k <;> cases h <;> decide

theorem ne_of_productOp? {k : TokenKind} {op : BinaryOp} (h : k.productOp? = some op) :
    k ≠ .identifier ∧ k ≠ .bracketOpen ∧ k ≠ .bracketClose ∧ k ≠ .comma := by
  cases k <;> cases h <;> decide

theorem ne_of_sumOp? {k : TokenKind} {op : BinaryOp} (h : k.sumOp? = some op) :
    k ≠ .identifier ∧ k ≠ .bracketOpen ∧ k ≠ .bracketClose ∧ k ≠ .comma := by
  cases k <;> cases h <;> decide

mutual

/-- Brackets and commas inside a phrase are its own. -/
theorem Phrase.argumentsFrom_eq {rung : Rung} {n : Nat} {ts rest : List Token} {e : Expr} :
    Phrase limit rung n ts e rest → ∀ depth count, argumentsFrom depth count ts = argumentsFrom depth count rest
  | .number hk _, depth, count => argumentsFrom_other (by rw [hk]; decide)
  | .constant hk _, depth, count => argumentsFrom_other (by rw [hk]; decide)
  | .emptyCall hk ho hc, depth, count => by
    rw [argumentsFrom_other (by rw [hk]; decide), argumentsFrom_open ho, argumentsFrom_close hc]
  | .call hk ho hargs hc, depth, count => by
    rw [argumentsFrom_other (by rw [hk]; decide), argumentsFrom_open ho, hargs.argumentsFrom_succ_eq,
      argumentsFrom_close hc]
  | .group ho _ hsum hc, depth, count => by
    rw [argumentsFrom_open ho, hsum.argumentsFrom_eq, argumentsFrom_close hc]
  | .sign hk _ h, depth, count => by
    rw [argumentsFrom_other (ne_of_sign? hk).2, h.argumentsFrom_eq]
  | .root hk _ h _, depth, count => by
    rw [argumentsFrom_other (by rw [hk]; decide), h.argumentsFrom_eq]
  | .ofPrimary h, depth, count | .ofFactorial h, depth, count | .ofPower h, depth, count
  | .ofProduct h, depth, count => h.argumentsFrom_eq depth count
  | .bang h hk, depth, count => by
    rw [h.argumentsFrom_eq, argumentsFrom_other (by rw [hk]; decide)]
  | .caret h hk _ hright, depth, count => by
    rw [h.argumentsFrom_eq, argumentsFrom_other (by rw [hk]; decide), hright.argumentsFrom_eq]
  | .times h hk _ hright, depth, count => by
    rw [h.argumentsFrom_eq, argumentsFrom_other (ne_of_productOp? hk).2, hright.argumentsFrom_eq]
  | .plus h hk _ hright, depth, count => by
    rw [h.argumentsFrom_eq, argumentsFrom_other (ne_of_sumOp? hk).2, hright.argumentsFrom_eq]

/-- The commas between the arguments of a call do not count outside of its bracket. -/
theorem Arguments.argumentsFrom_succ_eq {n : Nat} {ts rest : List Token} {es : List Expr} :
    Arguments limit n ts es rest →
      ∀ depth count, argumentsFrom (depth + 1) count ts = argumentsFrom (depth + 1) count rest
  | .last _ h, depth, count => h.argumentsFrom_eq (depth + 1) count
  | .more _ h hcomma hargs, depth, count => by
    rw [h.argumentsFrom_eq, argumentsFrom, hcomma]
    simp only [Nat.add_one_ne_zero, if_false]
    exact hargs.argumentsFrom_succ_eq depth count

end

theorem Arguments.argumentsFrom_zero_eq {n : Nat} {ts rest : List Token} {es : List Expr} :
    Arguments limit n ts es rest → ∀ count, argumentsFrom 0 (count + 1) ts = argumentsFrom 0 (count + es.length) rest
  | .last _ h, count => h.argumentsFrom_eq 0 (count + 1)
  | @Arguments.more _ _ _ _ _ _ _ es _ h hcomma hargs, count => by
    have hlength : count + 1 + es.length = count + (es.length + 1) := by omega
    rw [h.argumentsFrom_eq, argumentsFrom, hcomma]
    simp only [if_true, List.length_cons]
    rw [hargs.argumentsFrom_zero_eq (count + 1), hlength]

/-- **As many arguments are written as the call has.** -/
theorem Arguments.argumentCount_eq {n : Nat} {closing : Token} {ts rest : List Token} {es : List Expr}
    (h : Arguments limit n ts es (closing :: rest)) (hc : closing.kind = .bracketClose) :
    argumentCount ts = es.length := by
  obtain ⟨t, ts', rfl, ht⟩ := head_ne_of_arguments h
  have hcount := h.argumentsFrom_zero_eq 0
  rw [Nat.zero_add, Nat.zero_add] at hcount
  rw [argumentCount, if_neg ht, hcount, argumentsFrom, hc]
  rfl

/-! ## The walk follows the text -/

theorem findSome?_visit (v : Visit) (below : List Visit) :
    (v :: below).findSome? (Visit.fault? r) = (v.fault? r).or (below.findSome? (Visit.fault? r)) := by
  rw [List.findSome?_cons]
  cases v.fault? r <;> rfl

theorem firstOffence?_of_ne {t : Token} {rest : List Token} (h : t.kind ≠ .identifier) :
    firstOffence? r (t :: rest) = firstOffence? r rest := by
  rw [firstOffence?, offence?_of_ne h]
  rfl

theorem firstOffence?_between {op : BinaryOp} {left right : Expr} {cost : Nat} {t : Token} {ts mid rest : List Token}
    (hleft : firstOffence? r ts = ((walk (cost + 1) left).findSome? (Visit.fault? r)).or (firstOffence? r (t :: mid)))
    (ht : t.kind ≠ .identifier)
    (hright : firstOffence? r mid = ((walk (cost + 1) right).findSome? (Visit.fault? r)).or (firstOffence? r rest)) :
    firstOffence? r ts =
      ((walk cost (.binary op left right)).findSome? (Visit.fault? r)).or (firstOffence? r rest) := by
  have hnode : Visit.fault? r ⟨.binary op left right, cost⟩ = none := rfl
  rw [hleft, firstOffence?_of_ne ht, hright, walk, findSome?_visit, hnode, Option.none_or, List.findSome?_append,
    Option.or_assoc]

theorem firstOffence?_before {op : UnaryOp} {operand : Expr} {cost : Nat} {t : Token} {ts rest : List Token}
    (ht : t.kind ≠ .identifier)
    (h : firstOffence? r ts = ((walk (cost + 1) operand).findSome? (Visit.fault? r)).or (firstOffence? r rest)) :
    firstOffence? r (t :: ts) =
      ((walk cost (.unary op operand)).findSome? (Visit.fault? r)).or (firstOffence? r rest) := by
  have hnode : Visit.fault? r ⟨.unary op operand, cost⟩ = none := rfl
  rw [firstOffence?_of_ne ht, h, walk, findSome?_visit, hnode, Option.none_or]

mutual

/-- **The walk through the tree of a phrase meets its wrong names in the order of the text.** -/
theorem Phrase.firstOffence?_eq {rung : Rung} {n : Nat} {ts rest : List Token} {e : Expr} :
    Phrase limit rung n ts e rest →
      ∀ cost, firstOffence? r ts = ((walk cost e).findSome? (Visit.fault? r)).or (firstOffence? r rest)
  | .number hk _, cost => firstOffence?_of_ne (by rw [hk]; decide)
  | @Phrase.constant _ _ t rest hk hnext, cost => by
    have hnode : Visit.fault? r ⟨.constant t.lexeme (some t.position), cost⟩ = wrongConstant? t :=
      (wrongConstant?_eq t).symm
    rw [firstOffence?, offence?_constant hk hnext, walk, findSome?_visit, hnode, List.findSome?_nil, Option.or_none]
  | @Phrase.emptyCall _ _ name opening closing rest hk ho hc, cost => by
    have hnode : Visit.fault? r ⟨.call name.lexeme [] (some name.position), cost⟩ = wrongCall? r name 0 :=
      (wrongCall?_eq name 0).symm
    have hcount : argumentCount (closing :: rest) = 0 := if_pos hc
    rw [firstOffence?, offence?_call hk ho, hcount, firstOffence?_of_ne (by rw [ho]; decide),
      firstOffence?_of_ne (by rw [hc]; decide), walk, findSome?_visit, hnode, walkAll, List.findSome?_nil,
      Option.or_none]
  | @Phrase.call _ _ name opening closing ts rest es hk ho hargs hc, cost => by
    have hnode : Visit.fault? r ⟨.call name.lexeme es (some name.position), cost⟩ = wrongCall? r name es.length :=
      (wrongCall?_eq name es.length).symm
    rw [firstOffence?, offence?_call hk ho, hargs.argumentCount_eq hc, firstOffence?_of_ne (by rw [ho]; decide),
      hargs.firstOffence?_eq (cost + callCost), firstOffence?_of_ne (by rw [hc]; decide), walk, findSome?_visit, hnode,
      Option.or_assoc]
  | .group ho _ hsum hc, cost => by
    rw [firstOffence?_of_ne (by rw [ho]; decide), hsum.firstOffence?_eq cost, firstOffence?_of_ne (by rw [hc]; decide)]
  | .sign hk _ h, cost =>
    firstOffence?_before (ne_of_sign? hk).1 (h.firstOffence?_eq (cost + 1))
  | .root hk _ h _, cost => firstOffence?_before (by rw [hk]; decide) (h.firstOffence?_eq (cost + 1))
  | .ofPrimary h, cost | .ofFactorial h, cost | .ofPower h, cost | .ofProduct h, cost => h.firstOffence?_eq cost
  | @Phrase.bang _ _ t _ _ e h hk, cost => by
    have hnode : Visit.fault? r ⟨.unary .factorial e, cost⟩ = none := rfl
    rw [h.firstOffence?_eq (cost + 1), firstOffence?_of_ne (by rw [hk]; decide), walk, findSome?_visit, hnode,
      Option.none_or]
  | .caret h hk _ hright, cost =>
    firstOffence?_between (h.firstOffence?_eq (cost + 1)) (by rw [hk]; decide) (hright.firstOffence?_eq (cost + 1))
  | .times h hk _ hright, cost =>
    firstOffence?_between (h.firstOffence?_eq (cost + 1)) (ne_of_productOp? hk).1
      (hright.firstOffence?_eq (cost + 1))
  | .plus h hk _ hright, cost =>
    firstOffence?_between (h.firstOffence?_eq (cost + 1)) (ne_of_sumOp? hk).1
      (hright.firstOffence?_eq (cost + 1))

theorem Arguments.firstOffence?_eq {n : Nat} {ts rest : List Token} {es : List Expr} :
    Arguments limit n ts es rest →
      ∀ cost, firstOffence? r ts = ((walkAll cost es).findSome? (Visit.fault? r)).or (firstOffence? r rest)
  | .last _ h, cost => by
    rw [h.firstOffence?_eq cost, walkAll, walkAll, List.append_nil]
  | .more _ h hcomma hargs, cost => by
    rw [h.firstOffence?_eq cost, firstOffence?_of_ne (by rw [hcomma]; decide), hargs.firstOffence?_eq cost, walkAll,
      List.findSome?_append, Option.or_assoc]

end

/-! ## The leftmost wrong name -/

/-- **What can be wrong with a token**: it is no constant, or it is before a bracket and no function, or not one with as
many arguments. -/
theorem offence?_cases {t : Token} {rest : List Token} {e : EvalError} (h : offence? r t rest = some e) :
    e = .unknownConstant t.lexeme (some t.position) ∨
    ∃ opening inside, rest = opening :: inside ∧ opening.kind = .bracketOpen ∧
      (e = .unknownFunction t.lexeme (some t.position) ∨
        ∃ f, r.find? t.lexeme = some f ∧
          e = .arityMismatch t.lexeme (some t.position) f.name f.arity (argumentCount inside)) := by
  have hconstant : wrongConstant? t = some e → e = .unknownConstant t.lexeme (some t.position) := by
    intro h
    unfold wrongConstant? at h
    split at h <;> cases h
    rfl
  unfold offence? at h
  split at h
  · split at h
    · exact .inl (hconstant h)
    · next opening inside =>
      split at h
      · next hk =>
        refine .inr ⟨opening, inside, rfl, hk, ?_⟩
        unfold wrongCall? at h
        split at h
        · cases h
          exact .inl rfl
        · next f hf =>
          split at h <;> cases h
          exact .inr ⟨f, hf, rfl⟩
      · exact .inl (hconstant h)
  · cases h

theorem offence?_about {t : Token} {rest : List Token} {e : EvalError} (h : offence? r t rest = some e) :
    e.name = t.lexeme ∧ e.position? = some t.position := by
  obtain rfl | ⟨_, _, _, _, rfl | ⟨_, _, rfl⟩⟩ := offence?_cases h <;> exact ⟨rfl, rfl⟩

theorem offends_cons {t u : Token} {rest : List Token} {e : EvalError} :
    Offends r (u :: rest) t e ↔ (t = u ∧ offence? r u rest = some e) ∨ Offends r rest t e := by
  constructor
  · rintro ⟨before, behind, hts, h⟩
    cases before with
    | nil =>
      cases hts
      exact .inl ⟨rfl, h⟩
    | cons v before =>
      cases hts
      exact .inr ⟨before, behind, rfl, h⟩
  · rintro (⟨rfl, h⟩ | ⟨before, behind, rfl, h⟩)
    · exact ⟨[], rest, rfl, h⟩
    · exact ⟨u :: before, behind, rfl, h⟩

theorem Offends.mem {ts : List Token} {t : Token} {e : EvalError} (h : Offends r ts t e) : t ∈ ts := by
  obtain ⟨before, rest, rfl, -⟩ := h
  exact List.mem_append_right _ List.mem_cons_self

theorem firstOffence?_of_offends {t : Token} {e : EvalError} : ∀ {ts : List Token}, Offends r ts t e →
    ∃ e', firstOffence? r ts = some e'
  | [], h => by cases h.mem
  | u :: rest, h => by
    rw [firstOffence?]
    rcases offends_cons.1 h with ⟨-, hu⟩ | hrest
    · exact ⟨e, by rw [hu]; rfl⟩
    · obtain ⟨e', he'⟩ := firstOffence?_of_offends hrest
      rw [he']
      cases offence? r u rest with
      | some e₀ => exact ⟨e₀, rfl⟩
      | none => exact ⟨e', rfl⟩

/-- **The first wrong token is the one with the least place.** -/
theorem firstOffence?_eq_some {e : EvalError} : ∀ {ts : List Token}, (ts.Pairwise fun a b => a.position < b.position) →
    (firstOffence? r ts = some e ↔
      ∃ t, Offends r ts t e ∧ ∀ t' e', Offends r ts t' e' → t.position ≤ t'.position)
  | [], _ => by
    constructor
    · nofun
    · rintro ⟨t, h, -⟩
      cases h.mem
  | u :: rest, hordered => by
    obtain ⟨hlt, hrest⟩ := List.pairwise_cons.1 hordered
    simp only [firstOffence?, offends_cons]
    cases hu : offence? r u rest with
    | some e₀ =>
      constructor
      · intro h
        cases h
        refine ⟨u, .inl ⟨rfl, rfl⟩, ?_⟩
        rintro t' e' (⟨rfl, -⟩ | h')
        · exact Int.le_refl _
        · exact Int.le_of_lt (hlt t' h'.mem)
      · rintro ⟨t, ⟨-, h⟩ | h, hleast⟩
        · exact h
        · have := hlt t h.mem
          have := hleast u e₀ (.inl ⟨rfl, rfl⟩)
          omega
    | none =>
      simp only [Option.none_or, reduceCtorEq, and_false, false_or]
      exact firstOffence?_eq_some hrest

/-- **Errors are about the leftmost wrong name.**  A text that is an expression, and not too deep to evaluate, has an
error exactly if one of its tokens is wrong: a name that is no constant and is not called, a called name that is not
registered, or one that does not accept as many arguments as are written.  The error is the one of the wrong token with
the least place, and it spells the name as the text does. -/
theorem leftmost_wrong_name [Platform] (r : Registry) (code : Text) (tree : Expr)
    (hparse : parse (scan code) = .ok tree) (hdeep : evaluate r tree ≠ .error .tooDeep) :
    ((∃ e, calculate r code = .error (.evaluation e)) ↔ ∃ t e, Offends r (beforeEnd (scan code).tokens) t e) ∧
    ∀ e, calculate r code = .error (.evaluation e) ↔
      ∃ t, Offends r (beforeEnd (scan code).tokens) t e ∧ (e.name = t.lexeme ∧ e.position? = some t.position) ∧
        ∀ t' e', Offends r (beforeEnd (scan code).tokens) t' e' → t.position ≤ t'.position := by
  obtain ⟨front, hscan, htiling, -, hphrase⟩ := accepted_of_parse hparse
  have hfront : beforeEnd (scan code).tokens = front := by
    rw [hscan]
    exact beforeEnd_append_endMark htiling.isEnd_eq_false
  have hcalculate : ∀ e, calculate r code = .error (.evaluation e) ↔ eval r tree = .error e := by
    intro e
    have hevaluate : evaluate r tree = eval r tree := evalWithin_eq_eval hdeep
    simp only [calculate, calculateSource, hparse, hevaluate]
    cases eval r tree <;> simp
  have herror : ∀ e, calculate r code = .error (.evaluation e) ↔ firstOffence? r front = some e := by
    intro e
    rw [hcalculate, ← failure?_eq_some, failure?_eval tree 0, hphrase.firstOffence?_eq 0, firstOffence?,
      Option.or_none]
  have hfirst : ∀ e, calculate r code = .error (.evaluation e) ↔
      ∃ t, Offends r front t e ∧ ∀ t' e', Offends r front t' e' → t.position ≤ t'.position :=
    fun e => (herror e).trans (firstOffence?_eq_some htiling.pairwise_position)
  rw [hfront]
  refine ⟨⟨?_, ?_⟩, fun e => (hfirst e).trans ⟨?_, ?_⟩⟩
  · rintro ⟨e, he⟩
    obtain ⟨t, h, -⟩ := (hfirst e).1 he
    exact ⟨t, e, h⟩
  · rintro ⟨t, e, h⟩
    obtain ⟨e', he'⟩ := firstOffence?_of_offends h
    exact ⟨e', (herror e').2 he'⟩
  · rintro ⟨t, h, hleast⟩
    obtain ⟨before, rest, -, hoffence⟩ := id h
    exact ⟨t, h, offence?_about hoffence, hleast⟩
  · rintro ⟨t, h, -, hleast⟩
    exact ⟨t, h, hleast⟩

/-- In `e+sin(pi,x)` the call is wrong before its unknown argument is. -/
theorem leftmost_wrong_name_before_argument :
    let code := ['e', '+', 's', 'i', 'n', '(', 'p', 'i', ',', 'x', ')']
    let tree := Expr.binary .add (.constant ['e'] (some 0))
      (.call ['s', 'i', 'n'] [.constant ['p', 'i'] (some 6), .constant ['x'] (some 9)] (some 2))
    let e := EvalError.arityMismatch ['s', 'i', 'n'] (some 2) ['s', 'i', 'n'] ⟨1, some 1⟩ 2
    parse (scan code) = .ok tree ∧ evaluate .builtin tree = .error e ∧
      ∃ t, Offends .builtin (beforeEnd (scan code).tokens) t e ∧ (e.name = t.lexeme ∧ e.position? = some t.position) ∧
        ∀ t' e', Offends .builtin (beforeEnd (scan code).tokens) t' e' → t.position ≤ t'.position := by
  intro code tree e
  have hparse : parse (scan code) = .ok tree := by rfl
  have hevaluate : evaluate .builtin tree = .error e := by rfl
  have hcalculate : calculate .builtin code = .error (.evaluation e) := by
    simp only [calculate, calculateSource, hparse, hevaluate]
  exact ⟨hparse, hevaluate,
    ((leftmost_wrong_name .builtin code tree hparse (by simp [hevaluate, e])).2 e).1 hcalculate⟩

end Calculator
