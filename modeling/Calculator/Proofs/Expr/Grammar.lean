import Calculator.Expr.Parse
/-!
# The grammar of expressions

The language of the parser, said without it.  A phrase stands on one of five rungs: a primary, a primary with factorials
behind it, a power, a product of powers, a sum of products.  Powers group to the right, products and sums to the left,
and brackets leave no node.  Two phrases look one token further: a name is a constant only where no bracket follows it,
and the operand of a root goes as far as it can, so no operator that could take the root follows it.

A phrase is read inside some number of open levels.  The whole input is one level, and every operand of a leading
operator, bracketed group, argument of a call and right operand opens one more inside the level that contains it; a
limit bounds how many are open at once.
-/
namespace Calculator

/-! ## Tokens of the grammar -/

namespace TokenKind

/-- The signs, which take the primary that follows them. -/
def sign? : TokenKind → Option UnaryOp
  | plus => some .pos
  | minus => some .neg
  | _ => none

/-- The operators between the factors of a product. -/
def productOp? : TokenKind → Option BinaryOp
  | star => some .mul
  | slash => some .div
  | percent => some .mod
  | _ => none

/-- The operators between the terms of a sum. -/
def sumOp? : TokenKind → Option BinaryOp
  | plus => some .add
  | minus => some .sub
  | _ => none

/-- The operators that stand behind a value. -/
def isTrailing (k : TokenKind) : Bool :=
  k ∈ [bang, caret, star, slash, percent, plus, minus]

end TokenKind

/-- The rungs of the grammar, from the phrases that bind most tightly to those that bind least. -/
inductive Rung where
  | primary | factorial | power | product | sum
deriving DecidableEq

/-! ## Phrases -/

mutual

/-- `Phrase limit r n ts e rest`: the tokens `ts` start with a phrase on the rung `r` whose tree is `e`, and go on with
`rest`; `n` levels are open around the phrase, and no more than `limit` inside it. -/
inductive Phrase (limit : Nat) : Rung → Nat → List Token → Expr → List Token → Prop
  | number {n : Nat} {t : Token} {x : Binary64} {rest : List Token} :
      t.kind = .number → readNumber? t.lexeme = some x →
      Phrase limit .primary n (t :: rest) (.literal x) rest
  | constant {n : Nat} {t : Token} {rest : List Token} :
      t.kind = .identifier → (∀ next, rest.head? = some next → next.kind ≠ .bracketOpen) →
      Phrase limit .primary n (t :: rest) (.constant t.lexeme (some t.position)) rest
  | emptyCall {n : Nat} {name opening closing : Token} {rest : List Token} :
      name.kind = .identifier → opening.kind = .bracketOpen → closing.kind = .bracketClose →
      Phrase limit .primary n (name :: opening :: closing :: rest) (.call name.lexeme [] (some name.position)) rest
  | call {n : Nat} {name opening closing : Token} {ts rest : List Token} {es : List Expr} :
      name.kind = .identifier → opening.kind = .bracketOpen → Arguments limit n ts es (closing :: rest) →
      closing.kind = .bracketClose →
      Phrase limit .primary n (name :: opening :: ts) (.call name.lexeme es (some name.position)) rest
  | group {n : Nat} {opening closing : Token} {ts rest : List Token} {e : Expr} :
      opening.kind = .bracketOpen → n < limit → Phrase limit .sum (n + 1) ts e (closing :: rest) →
      closing.kind = .bracketClose →
      Phrase limit .primary n (opening :: ts) e rest
  | sign {n : Nat} {t : Token} {op : UnaryOp} {ts rest : List Token} {e : Expr} :
      t.kind.sign? = some op → n < limit → Phrase limit .primary (n + 1) ts e rest →
      Phrase limit .primary n (t :: ts) (.unary op e) rest
  | root {n : Nat} {t : Token} {ts rest : List Token} {e : Expr} :
      t.kind = .root → n < limit → Phrase limit .sum (n + 1) ts e rest →
      (∀ next, rest.head? = some next → next.kind.isTrailing = false) →
      Phrase limit .primary n (t :: ts) (.unary .sqrt e) rest
  | ofPrimary {n : Nat} {ts rest : List Token} {e : Expr} :
      Phrase limit .primary n ts e rest → Phrase limit .factorial n ts e rest
  | bang {n : Nat} {t : Token} {ts rest : List Token} {e : Expr} :
      Phrase limit .factorial n ts e (t :: rest) → t.kind = .bang →
      Phrase limit .factorial n ts (.unary .factorial e) rest
  | ofFactorial {n : Nat} {ts rest : List Token} {e : Expr} :
      Phrase limit .factorial n ts e rest → Phrase limit .power n ts e rest
  | caret {n : Nat} {t : Token} {ts mid rest : List Token} {left right : Expr} :
      Phrase limit .factorial n ts left (t :: mid) → t.kind = .caret → n < limit →
      Phrase limit .power (n + 1) mid right rest →
      Phrase limit .power n ts (.binary .pow left right) rest
  | ofPower {n : Nat} {ts rest : List Token} {e : Expr} :
      Phrase limit .power n ts e rest → Phrase limit .product n ts e rest
  | times {n : Nat} {t : Token} {op : BinaryOp} {ts mid rest : List Token} {left right : Expr} :
      Phrase limit .product n ts left (t :: mid) → t.kind.productOp? = some op → n < limit →
      Phrase limit .power (n + 1) mid right rest →
      Phrase limit .product n ts (.binary op left right) rest
  | ofProduct {n : Nat} {ts rest : List Token} {e : Expr} :
      Phrase limit .product n ts e rest → Phrase limit .sum n ts e rest
  | plus {n : Nat} {t : Token} {op : BinaryOp} {ts mid rest : List Token} {left right : Expr} :
      Phrase limit .sum n ts left (t :: mid) → t.kind.sumOp? = some op → n < limit →
      Phrase limit .product (n + 1) mid right rest →
      Phrase limit .sum n ts (.binary op left right) rest

/-- `Arguments limit n ts es rest`: the tokens `ts` start with arguments between commas, at least one, whose trees are
`es`, and go on with `rest`; `n` levels are open around them. -/
inductive Arguments (limit : Nat) : Nat → List Token → List Expr → List Token → Prop
  | last {n : Nat} {ts rest : List Token} {e : Expr} :
      n < limit → Phrase limit .sum (n + 1) ts e rest → Arguments limit n ts [e] rest
  | more {n : Nat} {comma : Token} {ts mid rest : List Token} {e : Expr} {es : List Expr} :
      n < limit → Phrase limit .sum (n + 1) ts e (comma :: mid) → comma.kind = .comma →
      Arguments limit n mid es rest → Arguments limit n ts (e :: es) rest

end

/-- A whole input is a sum, and the first level. -/
def Sentence (limit : Nat) (ts : List Token) (e : Expr) : Prop := 1 ≤ limit ∧ Phrase limit .sum 1 ts e []

/-- The tokens before the first end mark. -/
def beforeEnd (ts : List Token) : List Token := ts.takeWhile (!·.isEnd)

end Calculator
