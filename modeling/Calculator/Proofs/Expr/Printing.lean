import Calculator.Proofs.Expr.Compaction
import Calculator.Proofs.Expr.ReadingOrder
import Calculator.Proofs.Expr.Recognition
/-!
# Writing trees

Every tree can be written as a row of tokens, with brackets around an operand only where the grouping asks for them.  The
rule looks at the operator of a node and at the operator of its operand, and, because a root takes all that follows it,
at how the written operand ends: an operand that ends inside the operand of a root is put in brackets wherever an
operator follows it.

The parser reads the tree back (`written_tree_reads_back`).  The written form of a tree is a phrase on the rung of its
operator, in front of any token that does not go on with it (`Expr.EndsBefore`), and the induction on the tree carries
both, the rung and what may follow.
-/
namespace Calculator

/-! ## What is written -/

/-- A token to be written: a number by its value, a name by its spelling, and any other token by its kind. -/
inductive Item where
  | number (value : Binary64)
  | name (spelling : Text)
  | symbol (kind : TokenKind)

/-- A token, at any place, is the written form of an item. -/
def Token.Writes (t : Token) : Item → Prop
  | .number value => t.kind = .number ∧ readNumber? t.lexeme = some value
  | .name spelling => t.kind = .identifier ∧ t.lexeme = spelling
  | .symbol kind => t.kind = kind

instance : DecidableRel Token.Writes
  | t, .number value => inferInstanceAs (Decidable (t.kind = .number ∧ readNumber? t.lexeme = some value))
  | t, .name spelling => inferInstanceAs (Decidable (t.kind = .identifier ∧ t.lexeme = spelling))
  | t, .symbol kind => inferInstanceAs (Decidable (t.kind = kind))

/-- The token of an operator. -/
def UnaryOp.symbol : UnaryOp → TokenKind
  | neg => .minus
  | pos => .plus
  | sqrt => .root
  | factorial => .bang

def BinaryOp.symbol : BinaryOp → TokenKind
  | add => .plus
  | sub => .minus
  | mul => .star
  | div => .slash
  | mod => .percent
  | pow => .caret

/-! ## Where brackets are needed -/

namespace Expr

def isBinary : Expr → Bool
  | binary .. => true
  | _ => false

def isFactorial : Expr → Bool
  | unary .factorial _ => true
  | _ => false

/-- The operator at the root of a tree, if there is one, is weaker than some strength. -/
def isWeakerThan (strength : Nat) : Expr → Bool
  | unary op _ => op.strength < strength
  | binary op .. => op.strength < strength
  | _ => false

/-- The written form ends inside the operand of a root, and no bracket is closed behind it. -/
def endsInRoot : Expr → Bool
  | unary .sqrt _ => true
  | unary .neg operand | unary .pos operand => !(operand.isBinary || operand.isFactorial) && operand.endsInRoot
  | binary op _ right => !right.isWeakerThan (Operation.binary op).operandStrength && right.endsInRoot
  | _ => false

end Expr

/-- The operand of an operator is written in brackets. -/
def UnaryOp.brackets : UnaryOp → Expr → Bool
  | neg, operand | pos, operand => operand.isBinary || operand.isFactorial
  | sqrt, _ => false
  | factorial, operand => operand.isBinary || operand.endsInRoot

def BinaryOp.bracketsLeft : BinaryOp → Expr → Bool
  | pow, left => left.isBinary || left.endsInRoot
  | op, left => left.isWeakerThan op.strength || left.endsInRoot

def BinaryOp.bracketsRight (op : BinaryOp) (right : Expr) : Bool :=
  right.isWeakerThan (Operation.binary op).operandStrength

/-- Some items, perhaps in brackets. -/
def bracketed (inBrackets : Bool) (items : List Item) : List Item :=
  if inBrackets then .symbol .bracketOpen :: (items ++ [.symbol .bracketClose]) else items

mutual

/-- The written form of a tree. -/
def Expr.items : Expr → List Item
  | .literal value => [.number value]
  | .constant name _ => [.name name]
  | .unary .factorial operand => bracketed (UnaryOp.factorial.brackets operand) operand.items ++ [.symbol .bang]
  | .unary op operand => .symbol op.symbol :: bracketed (op.brackets operand) operand.items
  | .binary op left right =>
    bracketed (op.bracketsLeft left) left.items ++ .symbol op.symbol :: bracketed (op.bracketsRight right) right.items
  | .call name [] _ => [.name name, .symbol .bracketOpen, .symbol .bracketClose]
  | .call name (first :: more) _ =>
    .name name :: .symbol .bracketOpen :: (first.items ++ (moreItems more ++ [.symbol .bracketClose]))

/-- Further arguments of a call, each behind a comma. -/
def moreItems : List Expr → List Item
  | [] => []
  | e :: rest => .symbol .comma :: (e.items ++ moreItems rest)

end

/-! ## How many levels are open in it -/

/-- Brackets open a level. -/
def bracketedDepth (inBrackets : Bool) (depth : Nat) : Nat := if inBrackets then depth + 1 else depth

mutual

/-- How many levels are open at once in the written form: one for each leading operator, bracket, argument and right
operand around a token. -/
def Expr.depth : Expr → Nat
  | .literal _ | .constant .. => 0
  | .unary .factorial operand => bracketedDepth (UnaryOp.factorial.brackets operand) operand.depth
  | .unary op operand => bracketedDepth (op.brackets operand) operand.depth + 1
  | .binary op left right =>
    max (bracketedDepth (op.bracketsLeft left) left.depth) (bracketedDepth (op.bracketsRight right) right.depth + 1)
  | .call _ arguments _ => depthAll arguments

def depthAll : List Expr → Nat
  | [] => 0
  | e :: rest => max (e.depth + 1) (depthAll rest)

end

/-- The open levels, with the expression as a whole. -/
def Expr.levels (e : Expr) : Nat := e.depth + 1

/-! ## What is read -/

/-- The rung of the written form. -/
def Expr.rung : Expr → Rung
  | .unary .factorial _ => .factorial
  | .binary op .. => .ofStrength op.strength
  | _ => .primary

/-- The written form ends before some tokens: they do not open the bracket of a call, and if it ends inside the operand
of a root they do not go on with that. -/
def Expr.EndsBefore (e : Expr) (rest : List Token) : Prop :=
  ∀ t, rest.head? = some t → t.kind ≠ .bracketOpen ∧ (e.endsInRoot = true → t.kind.isTrailing = false)

/-- The written form is a phrase, wherever it ends, with the tree that was written. -/
def Expr.Reads (limit : Nat) (e : Expr) : Prop :=
  ∀ (n : Nat) (ts rest : List Token), List.Forall₂ Token.Writes ts e.items → n + e.depth ≤ limit →
    e.EndsBefore rest → ∃ e', Phrase limit e.rung n (ts ++ rest) e' rest ∧ e'.withoutPlaces = e.withoutPlaces

variable {limit : Nat} {rest : List Token}

theorem forall₂_append {xs ys : List Item} {ts : List Token} (h : List.Forall₂ Token.Writes ts (xs ++ ys)) :
    ∃ us vs, ts = us ++ vs ∧ List.Forall₂ Token.Writes us xs ∧ List.Forall₂ Token.Writes vs ys :=
  ⟨ts.take xs.length, ts.drop xs.length, (List.take_append_drop _ _).symm, List.forall₂_take_append ts xs ys h,
    List.forall₂_drop_append ts xs ys h⟩

theorem endsBefore_cons {e : Expr} {t : Token} (hopen : t.kind ≠ .bracketOpen)
    (hroot : e.endsInRoot = true → t.kind.isTrailing = false) (rest : List Token) : e.EndsBefore (t :: rest) := by
  rintro _ ⟨⟩
  exact ⟨hopen, hroot⟩

/-- **An operand** is read on any rung that it is strong enough for, and in brackets on every rung. -/
theorem Expr.Reads.operand {e : Expr} (h : e.Reads limit) (r : Rung) (n : Nat) {inBrackets : Bool} {ts : List Token}
    (hts : List.Forall₂ Token.Writes ts (bracketed inBrackets e.items))
    (hdepth : n + bracketedDepth inBrackets e.depth ≤ limit)
    (hbare : inBrackets = false → r.strength ≤ e.rung.strength ∧ e.EndsBefore rest) :
    ∃ e', Phrase limit r n (ts ++ rest) e' rest ∧ e'.withoutPlaces = e.withoutPlaces := by
  cases inBrackets with
  | false =>
    obtain ⟨hrung, hends⟩ := hbare rfl
    obtain ⟨e', hphrase, hsame⟩ := h n ts rest hts hdepth hends
    exact ⟨e', hphrase.lift r hrung, hsame⟩
  | true =>
    cases hts with
    | @cons opening _ inside _ hopening hinside =>
      obtain ⟨us, vs, rfl, hus, hvs⟩ := forall₂_append hinside
      cases hvs with
      | @cons closing _ _ _ hclosing hnil =>
        cases hnil
        have hopen : opening.kind = .bracketOpen := hopening
        have hclose : closing.kind = .bracketClose := hclosing
        have hlimit : n + 1 + e.depth ≤ limit := by
          rw [bracketedDepth, if_pos rfl] at hdepth
          omega
        obtain ⟨e', hphrase, hsame⟩ := h (n + 1) us (closing :: rest) hus hlimit
          (endsBefore_cons (by rw [hclose]; decide) (fun _ => by rw [hclose]; decide) rest)
        have hgroup : Phrase limit .primary n (opening :: (us ++ closing :: rest)) e' rest :=
          .group hopen (by omega) (hphrase.lift .sum (by cases e.rung <;> decide)) hclose
        refine ⟨e', ?_, hsame⟩
        rw [List.cons_append, List.append_assoc]
        exact hgroup.lift r (by cases r <;> decide)

/-! ## Rungs of operands -/

theorem ofStrength_binary (op : BinaryOp) : (Rung.ofStrength op.strength).strength = op.strength := by
  cases op <;> rfl

/-- A tree that is no binary node is strong enough for a factorial or a power. -/
theorem four_le_rung {e : Expr} (h : e.isBinary = false) : 4 ≤ e.rung.strength := by
  cases e with
  | literal | constant | call => exact Nat.le_of_ble_eq_true rfl
  | unary op operand => cases op <;> exact Nat.le_of_ble_eq_true rfl
  | binary => cases h

theorem rung_eq_primary {e : Expr} (h : (e.isBinary || e.isFactorial) = false) : e.rung = .primary := by
  cases e with
  | literal | constant | call => rfl
  | unary op operand =>
    cases op with
    | factorial => cases h
    | _ => rfl
  | binary => cases h

/-- **A tree that is not too weak** stands on a rung for the operators of a strength. -/
theorem strength_le_rung {e : Expr} {strength : Nat} (hstrength : strength ≤ 4)
    (h : e.isWeakerThan strength = false) : strength ≤ e.rung.strength := by
  cases e with
  | literal | constant | call | unary => exact Nat.le_trans hstrength (four_le_rung rfl)
  | binary op left right =>
    rw [Expr.isWeakerThan, decide_eq_false_iff_not, Nat.not_lt] at h
    rw [Expr.rung, ofStrength_binary]
    exact h

theorem leftRung_le_of_not_bracketsLeft {op : BinaryOp} {left : Expr} (h : op.bracketsLeft left = false) :
    (Operation.binary op).leftRung.strength ≤ left.rung.strength ∧ left.endsInRoot = false := by
  cases op with
  | pow =>
    obtain ⟨hbinary, hroot⟩ := Bool.or_eq_false_iff.1 h
    exact ⟨four_le_rung hbinary, hroot⟩
  | add | sub | mul | div | mod =>
    obtain ⟨hweak, hroot⟩ := Bool.or_eq_false_iff.1 h
    exact ⟨strength_le_rung (by decide) hweak, hroot⟩

theorem operandRung_le_of_not_bracketsRight {op : BinaryOp} {right : Expr} (h : op.bracketsRight right = false) :
    (Rung.ofStrength (Operation.binary op).operandStrength).strength ≤ right.rung.strength := by
  have hstrength := strength_le_rung (by cases op <;> decide) h
  cases op <;> exact hstrength

/-! ## Trees of written trees -/

theorem allWithoutPlaces_cons {e e' : Expr} {es es' : List Expr} (he : e'.withoutPlaces = e.withoutPlaces)
    (hes : Expr.allWithoutPlaces es' = Expr.allWithoutPlaces es) :
    Expr.allWithoutPlaces (e' :: es') = Expr.allWithoutPlaces (e :: es) := by
  rw [Expr.allWithoutPlaces, Expr.allWithoutPlaces, he, hes]

theorem trailing?_symbol (op : BinaryOp) : op.symbol.trailing? = some (.binary op) := by
  cases op <;> rfl

theorem symbol_ne_bracketOpen (op : BinaryOp) : op.symbol ≠ .bracketOpen := by
  cases op <;> decide

namespace Expr

theorem reads_literal (value : Binary64) : (literal value).Reads limit := by
  intro n ts rest hts _ _
  cases hts with
  | cons ht hnil =>
    cases hnil
    exact ⟨_, .number ht.1 ht.2, rfl⟩

theorem reads_constant (name : Text) (position : Option Int) : (constant name position).Reads limit := by
  intro n ts rest hts _ hends
  cases hts with
  | cons ht hnil =>
    cases hnil
    obtain ⟨hk, rfl⟩ := ht
    exact ⟨_, .constant hk fun next hnext => (hends next hnext).1, rfl⟩

theorem Reads.factorial {operand : Expr} (h : operand.Reads limit) : (unary .factorial operand).Reads limit := by
  intro n ts rest hts hdepth _
  obtain ⟨us, vs, rfl, hus, hvs⟩ := forall₂_append hts
  cases hvs with
  | @cons t _ _ _ ht hnil =>
    cases hnil
    have hk : t.kind = .bang := ht
    have hbare : UnaryOp.factorial.brackets operand = false →
        Rung.factorial.strength ≤ operand.rung.strength ∧ operand.EndsBefore (t :: rest) := by
      intro hbare
      obtain ⟨hbinary, hroot⟩ := Bool.or_eq_false_iff.1 hbare
      refine ⟨four_le_rung hbinary, endsBefore_cons (by rw [hk]; decide) (fun hends => ?_) rest⟩
      cases hroot.symm.trans hends
    obtain ⟨e', hphrase, hsame⟩ := h.operand .factorial n hus hdepth hbare
    refine ⟨unary .factorial e', ?_, by rw [withoutPlaces, withoutPlaces, hsame]⟩
    rw [List.append_assoc]
    exact .bang hphrase hk

/-- A sign takes a primary, and brackets make one of any other operand. -/
theorem Reads.sign {operand : Expr} {op : UnaryOp} (h : operand.Reads limit) (hop : op = .neg ∨ op = .pos) :
    (unary op operand).Reads limit := by
  intro n ts rest hts hdepth hends
  have hsign : op.symbol.sign? = some op := by rcases hop with rfl | rfl <;> rfl
  have hitems : (unary op operand).items = .symbol op.symbol :: bracketed (op.brackets operand) operand.items := by
    rcases hop with rfl | rfl <;> rfl
  have hrung : (unary op operand).rung = .primary := by rcases hop with rfl | rfl <;> rfl
  have hlevels : (unary op operand).depth = bracketedDepth (op.brackets operand) operand.depth + 1 := by
    rcases hop with rfl | rfl <;> rfl
  rw [hitems] at hts
  rw [hlevels] at hdepth
  cases hts with
  | @cons t _ us _ ht hus =>
    have hk : t.kind = op.symbol := ht
    have hbare : op.brackets operand = false →
        Rung.primary.strength ≤ operand.rung.strength ∧ operand.EndsBefore rest := by
      intro hbare
      have htight : (operand.isBinary || operand.isFactorial) = false := by
        rcases hop with rfl | rfl <;> exact hbare
      refine ⟨Nat.le_of_eq (congrArg Rung.strength (rung_eq_primary htight).symm),
        fun next hnext => ⟨(hends next hnext).1, fun hroot => ?_⟩⟩
      refine (hends next hnext).2 ?_
      rcases hop with rfl | rfl <;> rw [endsInRoot, htight, hroot] <;> rfl
    obtain ⟨e', hphrase, hsame⟩ := h.operand .primary (n + 1) hus (by omega) hbare
    refine ⟨unary op e', ?_, by rw [withoutPlaces, withoutPlaces, hsame]⟩
    rw [hrung]
    exact .sign (by rw [hk, hsign]) (by omega) hphrase

theorem Reads.root {operand : Expr} (h : operand.Reads limit) : (unary .sqrt operand).Reads limit := by
  intro n ts rest hts hdepth hends
  cases hts with
  | @cons t _ us _ ht hus =>
    have hk : t.kind = .root := ht
    have hdepth' : n + (operand.depth + 1) ≤ limit := hdepth
    obtain ⟨e', hphrase, hsame⟩ := h (n + 1) us rest hus (by omega) fun next hnext =>
      ⟨(hends next hnext).1, fun _ => (hends next hnext).2 rfl⟩
    refine ⟨unary .sqrt e', ?_, by rw [withoutPlaces, withoutPlaces, hsame]⟩
    exact .root hk (by omega) (hphrase.lift .sum (by cases operand.rung <;> decide)) fun next hnext =>
      (hends next hnext).2 rfl

theorem Reads.binary {left right : Expr} (hleft : left.Reads limit) (hright : right.Reads limit) (op : BinaryOp) :
    (Expr.binary op left right).Reads limit := by
  intro n ts rest hts hdepth hends
  obtain ⟨us, vs, rfl, hus, hvs⟩ := forall₂_append hts
  rw [depth] at hdepth
  cases hvs with
  | @cons t _ vs _ ht hvs =>
    have hk : t.kind = op.symbol := ht
    have hbareLeft : op.bracketsLeft left = false →
        (Operation.binary op).leftRung.strength ≤ left.rung.strength ∧ left.EndsBefore (t :: (vs ++ rest)) := by
      intro hbare
      obtain ⟨hrung, hroot⟩ := leftRung_le_of_not_bracketsLeft hbare
      refine ⟨hrung, endsBefore_cons (by rw [hk]; exact symbol_ne_bracketOpen op) (fun hends => ?_) _⟩
      cases hroot.symm.trans hends
    have hbareRight : op.bracketsRight right = false →
        (Rung.ofStrength (Operation.binary op).operandStrength).strength ≤ right.rung.strength ∧
          right.EndsBefore rest := by
      intro hbare
      refine ⟨operandRung_le_of_not_bracketsRight hbare, fun next hnext => ⟨(hends next hnext).1, fun hroot => ?_⟩⟩
      refine (hends next hnext).2 ?_
      rw [endsInRoot, show right.isWeakerThan _ = false from hbare, hroot]
      rfl
    obtain ⟨left', hphraseLeft, hsameLeft⟩ := hleft.operand (Operation.binary op).leftRung n hus (by omega) hbareLeft
    obtain ⟨right', hphraseRight, hsameRight⟩ :=
      hright.operand (.ofStrength (Operation.binary op).operandStrength) (n + 1) hvs (by omega) hbareRight
    refine ⟨Expr.binary op left' right', ?_, by rw [withoutPlaces, withoutPlaces, hsameLeft, hsameRight]⟩
    rw [List.append_assoc, List.cons_append]
    exact phrase_between (by rw [hk, trailing?_symbol]) hphraseLeft (by omega) hphraseRight

/-- The arguments of a call, from the first one on, up to the bracket behind them. -/
theorem arguments_of_reads (n : Nat) : ∀ (first : Expr) (more : List Expr) {ts : List Token} {closing : Token},
    (∀ e ∈ first :: more, e.Reads limit) → closing.kind = .bracketClose →
    List.Forall₂ Token.Writes ts (first.items ++ moreItems more) → n + depthAll (first :: more) ≤ limit →
    ∃ es, Arguments limit n (ts ++ closing :: rest) es (closing :: rest) ∧
      allWithoutPlaces es = allWithoutPlaces (first :: more)
  | first, [], ts, closing, hreads, hclose, hts, hdepth => by
    rw [moreItems, List.append_nil] at hts
    rw [depthAll, depthAll] at hdepth
    obtain ⟨e', hphrase, hsame⟩ := hreads first List.mem_cons_self (n + 1) ts (closing :: rest) hts (by omega)
      (endsBefore_cons (by rw [hclose]; decide) (fun _ => by rw [hclose]; decide) rest)
    exact ⟨[e'], .last (by omega) (hphrase.lift .sum (by cases first.rung <;> decide)), allWithoutPlaces_cons hsame rfl⟩
  | first, second :: more, ts, closing, hreads, hclose, hts, hdepth => by
    obtain ⟨us, vs, rfl, hus, hvs⟩ := forall₂_append hts
    rw [depthAll] at hdepth
    cases hvs with
    | @cons comma _ vs _ hcomma hvs =>
      have hk : comma.kind = .comma := hcomma
      obtain ⟨e', hphrase, hsame⟩ := hreads first List.mem_cons_self (n + 1) us (comma :: (vs ++ closing :: rest)) hus
        (by omega) (endsBefore_cons (by rw [hk]; decide) (fun _ => by rw [hk]; decide) _)
      obtain ⟨es, harguments, hsame'⟩ := arguments_of_reads n second more
        (fun e he => hreads e (List.mem_cons_of_mem first he)) hclose hvs (by omega)
      refine ⟨e' :: es, ?_, allWithoutPlaces_cons hsame hsame'⟩
      rw [List.append_assoc, List.cons_append]
      exact .more (by omega) (hphrase.lift .sum (by cases first.rung <;> decide)) hk harguments

theorem reads_call (name : Text) (arguments : List Expr) (position : Option Int)
    (h : ∀ e ∈ arguments, e.Reads limit) : (call name arguments position).Reads limit := by
  intro n ts rest hts hdepth _
  cases arguments with
  | nil =>
    match ts, hts with
    | [t, opening, closing], .cons ⟨hk, hname⟩ (.cons ho (.cons hc .nil)) =>
      subst hname
      exact ⟨_, .emptyCall hk ho hc, rfl⟩
  | cons first more =>
    match ts, hts with
    | t :: opening :: ts, .cons ⟨hk, hname⟩ (.cons ho hinside) =>
      subst hname
      rw [← List.append_assoc] at hinside
      obtain ⟨us, vs, rfl, hus, hvs⟩ := forall₂_append hinside
      match vs, hvs with
      | [closing], .cons hc .nil =>
        obtain ⟨es, harguments, hsame⟩ := arguments_of_reads n first more h hc hus hdepth
        refine ⟨call t.lexeme es (some t.position), ?_, by rw [withoutPlaces, withoutPlaces, hsame]⟩
        rw [List.cons_append, List.cons_append, List.append_assoc]
        exact .call hk ho harguments hc

mutual

/-- **The written form of a tree is a phrase with that tree.** -/
theorem reads (limit : Nat) : ∀ e : Expr, e.Reads limit
  | literal value => reads_literal value
  | constant name position => reads_constant name position
  | unary .neg operand => (operand.reads limit).sign (.inl rfl)
  | unary .pos operand => (operand.reads limit).sign (.inr rfl)
  | unary .sqrt operand => (operand.reads limit).root
  | unary .factorial operand => (operand.reads limit).factorial
  | binary op left right => (left.reads limit).binary (right.reads limit) op
  | call name arguments position => reads_call name arguments position (allRead limit arguments)

theorem allRead (limit : Nat) : ∀ es : List Expr, ∀ e ∈ es, e.Reads limit
  | [], _, he => by cases he
  | first :: rest, e, he => by
    rcases List.mem_cons.1 he with hfirst | he
    · rw [hfirst]
      exact reads limit first
    · exact allRead limit rest e he

end

end Expr

/-! ## Writing and reading -/

/-- Every item but a number has a token, and a number has one if it has a numeral. -/
theorem exists_writes : ∀ items : List Item, (∀ x, .number x ∈ items → ∃ numeral, readNumber? numeral = some x) →
    ∃ ts, List.Forall₂ Token.Writes ts items
  | [], _ => ⟨[], .nil⟩
  | item :: items, h => by
    obtain ⟨ts, hts⟩ := exists_writes items fun x hx => h x (List.mem_cons_of_mem item hx)
    cases item with
    | number x =>
      obtain ⟨numeral, hnumeral⟩ := h x List.mem_cons_self
      exact ⟨⟨.number, numeral, 0⟩ :: ts, .cons ⟨rfl, hnumeral⟩ hts⟩
    | name spelling => exact ⟨⟨.identifier, spelling, 0⟩ :: ts, .cons ⟨rfl, rfl⟩ hts⟩
    | symbol kind => exact ⟨⟨kind, [], 0⟩ :: ts, .cons rfl hts⟩

/-- **Every tree can be written.**  If its numbers have numerals, there are tokens that write the tree, with brackets
around an operand where the rule asks for them and nowhere else.  The parser reads any such tokens as the tree again,
the places apart, unless it finds them nested too deep; and it does not if no more levels are open in the written form
than the limit. -/
theorem written_tree_reads_back (e : Expr)
    (hnumbers : ∀ x, .number x ∈ e.items → ∃ numeral, readNumber? numeral = some x) :
    (∃ ts, List.Forall₂ Token.Writes ts e.items) ∧
    ∀ ts, List.Forall₂ Token.Writes ts e.items → ∃ e', e'.withoutPlaces = e.withoutPlaces ∧
      (parse (.ofTokens ts) = .ok e' ∨ ∃ t, parse (.ofTokens ts) = .error (atToken (.tooDeep nestingLimit) t)) ∧
      (e.levels ≤ nestingLimit → parse (.ofTokens ts) = .ok e') := by
  refine ⟨exists_writes e.items hnumbers, fun ts hts => ?_⟩
  have hsentence : ∀ limit, e.levels ≤ limit → ∃ e', Sentence limit ts e' ∧ e'.withoutPlaces = e.withoutPlaces := by
    intro limit hlevels
    rw [Expr.levels] at hlevels
    obtain ⟨e', hphrase, hsame⟩ := e.reads limit 1 ts [] hts (by omega) (fun _ hnext => by cases hnext)
    rw [List.append_nil] at hphrase
    exact ⟨e', ⟨by omega, hphrase.lift .sum (by cases e.rung <;> decide)⟩, hsame⟩
  obtain ⟨e', hlarge, hsame⟩ := hsentence e.levels (Nat.le_refl _)
  refine ⟨e', hsame, ?_, fun hlevels => ?_⟩
  · have hrun := run_of_sentence (within_none _) hlarge
    rcases ParserState.run_some_or nestingLimit none ts .initial 0 with heq | hdeep
    · exact .inl (heq.trans hrun)
    · exact .inr hdeep
  · obtain ⟨e'', hsmall, -⟩ := hsentence nestingLimit hlevels
    obtain rfl : e'' = e' := (parse_eq_ok_iff_sentence ts).2 ts _ _ _ _ hsmall hlarge
    exact run_of_sentence (within_some.2 (Nat.le_refl _)) hsmall

/-- The tree of `(a*-√b)-2!^f(c,d+e)`. -/
theorem written_tree_reads_back_root :
    let name (spelling : Char) : Expr := .constant [spelling] none
    let two : Binary64 := (readNumber? ['2']).getD .nan
    let tree : Expr := .binary .sub (.binary .mul (name 'a') (.unary .neg (.unary .sqrt (name 'b'))))
      (.binary .pow (.unary .factorial (.literal two)) (.call ['f'] [name 'c', .binary .add (name 'd') (name 'e')] none))
    let ts : List Token := [⟨.bracketOpen, ['('], 0⟩, ⟨.identifier, ['a'], 1⟩, ⟨.star, ['*'], 2⟩, ⟨.minus, ['-'], 3⟩,
      ⟨.root, ['√'], 4⟩, ⟨.identifier, ['b'], 5⟩, ⟨.bracketClose, [')'], 6⟩, ⟨.minus, ['-'], 7⟩, ⟨.number, ['2'], 8⟩,
      ⟨.bang, ['!'], 9⟩, ⟨.caret, ['^'], 10⟩, ⟨.identifier, ['f'], 11⟩, ⟨.bracketOpen, ['('], 12⟩,
      ⟨.identifier, ['c'], 13⟩, ⟨.comma, [','], 14⟩, ⟨.identifier, ['d'], 15⟩, ⟨.plus, ['+'], 16⟩,
      ⟨.identifier, ['e'], 17⟩, ⟨.bracketClose, [')'], 18⟩]
    List.Forall₂ Token.Writes ts tree.items ∧ tree.levels = 5 ∧
      ∃ e', parse (.ofTokens ts) = .ok e' ∧ e'.withoutPlaces = tree := by
  intro name two tree ts
  have htwo : readNumber? ['2'] = some two := by decide +kernel
  have hitems : tree.items = [.symbol .bracketOpen, .name ['a'], .symbol .star, .symbol .minus, .symbol .root,
      .name ['b'], .symbol .bracketClose, .symbol .minus, .number two, .symbol .bang, .symbol .caret, .name ['f'],
      .symbol .bracketOpen, .name ['c'], .symbol .comma, .name ['d'], .symbol .plus, .name ['e'],
      .symbol .bracketClose] := by rfl
  have hwrites : List.Forall₂ Token.Writes ts tree.items := by
    rw [hitems]
    decide +kernel
  have hnumbers : ∀ x, .number x ∈ tree.items → ∃ numeral, readNumber? numeral = some x := by
    intro x hx
    rw [hitems] at hx
    simp only [List.mem_cons, Item.number.injEq, reduceCtorEq, false_or, or_false, List.not_mem_nil] at hx
    exact ⟨['2'], by rw [htwo, hx]⟩
  obtain ⟨e', hsame, -, hparse⟩ := (written_tree_reads_back tree hnumbers).2 ts hwrites
  exact ⟨hwrites, rfl, e', hparse (by decide), hsame⟩

end Calculator
