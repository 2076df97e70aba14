import Calculator.Proofs.Expr.Grammar
import Calculator.Proofs.Expr.Run
/-!
# From a derivation to a run

Wherever a phrase of the grammar stands, reading it takes the parser from a state in which a value must follow to the
state that has the phrase's tree behind it, under the same levels (`Phrase.run_eq`).  What follows the phrase must not
belong to an operand that ends with it (`Rung.Ends`), and the innermost level must take the operators of the phrase's
rung.  The induction is on the derivation, with the levels around the phrase and the tokens behind it left open.
-/
namespace Calculator

open ParserState

/-! ## Rungs -/

namespace Rung

/-- How strong an operator must be to stand in a phrase on a rung, outside of brackets and operands. -/
def strength : Rung → Nat
  | primary => 5
  | factorial => 4
  | power => 3
  | product => 2
  | sum => 1

/-- The operators from this strength on would go on with an operand that ends with the phrase. -/
def closedFrom : Rung → Nat
  | primary | factorial => 5
  | power | product => 3
  | sum => 2

/-- No operator follows that would go on with an operand at the end of the phrase. -/
def Ends (r : Rung) (rest : List Token) : Prop :=
  ∀ t, rest.head? = some t → ∀ op, t.kind.trailing? = some op → op.strength < r.closedFrom

end Rung

theorem trailing?_strength_lt {k : TokenKind} {op : Operation} (h : k.trailing? = some op) : op.strength < 5 := by
  cases k <;> cases h <;> decide

theorem trailing?_strength_pos {k : TokenKind} {op : Operation} (h : k.trailing? = some op) : 1 ≤ op.strength := by
  cases k <;> cases h <;> decide

theorem trailing?_of_productOp? {k : TokenKind} {op : BinaryOp} (h : k.productOp? = some op) :
    k.trailing? = some (.binary op) ∧ op.strength = 2 ∧ (Operation.binary op).operandStrength = 3 := by
  cases k <;> cases h <;> decide

theorem trailing?_of_sumOp? {k : TokenKind} {op : BinaryOp} (h : k.sumOp? = some op) :
    k.trailing? = some (.binary op) ∧ op.strength = 1 ∧ (Operation.binary op).operandStrength = 2 := by
  cases k <;> cases h <;> decide

theorem leading?_of_sign? {k : TokenKind} {op : UnaryOp} (h : k.sign? = some op) :
    k.leading? = some op ∧ (Operation.unary op).operandStrength = 5 := by
  cases k <;> cases h <;> decide

theorem trailing?_eq_none {k : TokenKind} : k.trailing? = none ↔ k.isTrailing = false := by
  cases k <;> decide

theorem ends_cons {r : Rung} {t : Token} {rest : List Token} :
    r.Ends (t :: rest) ↔ ∀ op, t.kind.trailing? = some op → op.strength < r.closedFrom := by
  simp [Rung.Ends]

theorem ends_of_five {r : Rung} (h : r.closedFrom = 5) (rest : List Token) : r.Ends rest := by
  intro t _ op hop
  rw [h]
  exact trailing?_strength_lt hop

theorem Rung.Ends.mono {r r' : Rung} {rest : List Token} (h : r.Ends rest) (hr : r.closedFrom ≤ r'.closedFrom) :
    r'.Ends rest :=
  fun t ht op hop => Nat.lt_of_lt_of_le (h t ht op hop) hr

theorem ends_of_not_trailing {rest : List Token} (r : Rung)
    (h : ∀ t, rest.head? = some t → t.kind.isTrailing = false) : r.Ends rest := by
  intro t ht op hop
  rw [trailing?_eq_none.2 (h t ht)] at hop
  cases hop

theorem ends_cons_of_not_trailing {t : Token} {rest : List Token} (r : Rung) (h : t.kind.isTrailing = false) :
    r.Ends (t :: rest) :=
  ends_of_not_trailing r (by rintro _ ⟨⟩; exact h)

/-- What may follow a phrase is not taken into a level that takes only what would go on with the phrase. -/
theorem Rung.Ends.taken?_none {r : Rung} {rest : List Token} {levels : List Level} (h : r.Ends rest) (stop : Int)
    (hl : r.closedFrom ≤ leastStrength levels) : taken? levels (upNext stop rest) = none := by
  cases rest with
  | nil => exact taken?_of_no_trailing rfl
  | cons t rest => exact taken?_eq_none.2 fun op hop => Nat.lt_of_lt_of_le (h t rfl op hop) hl

/-! ## From a derivation to a run -/

theorem head_ne_of_phrase {limit : Nat} {r : Rung} {n : Nat} {ts rest : List Token} {e : Expr} :
    Phrase limit r n ts e rest → ∃ t ts', ts = t :: ts' ∧ t.kind ≠ .bracketClose
  | .number hk _ => ⟨_, _, rfl, by rw [hk]; decide⟩
  | .constant hk _ => ⟨_, _, rfl, by rw [hk]; decide⟩
  | .emptyCall hk _ _ => ⟨_, _, rfl, by rw [hk]; decide⟩
  | .call hk _ _ _ => ⟨_, _, rfl, by rw [hk]; decide⟩
  | .group hk _ _ _ => ⟨_, _, rfl, by rw [hk]; decide⟩
  | .sign hk _ _ => ⟨_, _, rfl, by rintro h; rw [h] at hk; cases hk⟩
  | .root hk _ _ _ => ⟨_, _, rfl, by rw [hk]; decide⟩
  | .ofPrimary h | .bang h _ | .ofFactorial h | .caret h _ _ _ | .ofPower h | .times h _ _ _ | .ofProduct h
  | .plus h _ _ _ => head_ne_of_phrase h

theorem head_ne_of_arguments {limit n : Nat} {ts rest : List Token} {es : List Expr} :
    Arguments limit n ts es rest → ∃ t ts', ts = t :: ts' ∧ t.kind ≠ .bracketClose
  | .last _ h | .more _ h _ _ => head_ne_of_phrase h

variable {cap : Option Nat} {failure : Option ScanError} {limit : Nat}

theorem run_taken {levels : List Level} {value : Expr} {op : Operation} {t : Token} {rest : List Token} (stop : Int)
    (hd : Within cap (levels.length + 1)) (hop : t.kind.trailing? = some op)
    (hs : leastStrength levels ≤ op.strength) :
    run cap failure ⟨levels, .value value⟩ stop (t :: rest) =
      run cap failure (applyTrailing op value levels) t.stop rest :=
  run_value hd (by rintro h; rw [h] at hop; cases hop) (stepBehind_taken value (taken?_eq_some.2 ⟨hop, hs⟩))

/-- A value, an operator that its level takes, and a right operand that ends before what the operator does not take. -/
theorem run_between {levels : List Level} {left right : Expr} {op : BinaryOp} {t : Token} {mid rest : List Token}
    {r : Rung} {stop₁ : Int} (stop : Int) (hd : Within cap (levels.length + 2))
    (hop : t.kind.trailing? = some (.binary op)) (hs : leastStrength levels ≤ op.strength)
    (hright : run cap failure ⟨.rightOperand op left :: levels, .nothing⟩ t.stop mid =
      run cap failure ⟨.rightOperand op left :: levels, .value right⟩ stop₁ rest)
    (hends : r.Ends rest) (hr : r.closedFrom ≤ (Operation.binary op).operandStrength) :
    run cap failure ⟨levels, .value left⟩ stop (t :: mid) =
      run cap failure ⟨levels, .value (.binary op left right)⟩ stop₁ rest :=
  (run_taken stop (hd.mono (Nat.le_succ _)) hop hs).trans
    (hright.trans (run_rightOperand hd (hends.taken?_none stop₁ hr)))

theorem ends_cons_of_trailing {r : Rung} {t : Token} {op : Operation} (rest : List Token)
    (hop : t.kind.trailing? = some op) (hr : op.strength < r.closedFrom) : r.Ends (t :: rest) :=
  ends_cons.2 fun op' h => by rw [hop] at h; cases h; exact hr

mutual

/-- **Reading a phrase leads from "a value must follow" to its tree**, under the same levels. -/
theorem Phrase.run_eq (hcap : Within cap limit) {r : Rung} {n : Nat} {ts rest : List Token} {e : Expr} :
    Phrase limit r n ts e rest → ∀ (levels : List Level) (stop : Int), levels.length + 1 = n → n ≤ limit →
      leastStrength levels ≤ r.strength → r.Ends rest →
      ∃ stop', run cap failure ⟨levels, .nothing⟩ stop ts = run cap failure ⟨levels, .value e⟩ stop' rest
  | .number hk hx, levels, stop, hn, hle, _, _ => by
    have hd : Within cap (levels.length + 1) := hcap.mono (by omega)
    exact ⟨_, run_nothing hd (by rw [hk]; decide) (startValue_number levels hk hx)⟩
  | @Phrase.constant _ _ _ rest hk hnext, levels, stop, hn, hle, _, _ => by
    have hd : Within cap (levels.length + 1) := hcap.mono (by omega)
    refine ⟨_, (run_nothing hd (by rw [hk]; decide) (startValue_identifier levels hk)).trans (run_name ?_)⟩
    cases rest with
    | nil => exact fun h => by cases h
    | cons t rest => exact hnext t rfl
  | .emptyCall hk ho hc, levels, stop, hn, hle, _, _ => by
    have hd : Within cap (levels.length + 1) := hcap.mono (by omega)
    exact ⟨_, (run_nothing hd (by rw [hk]; decide) (startValue_identifier levels hk)).trans
      ((run_name_bracketOpen hd ho).trans (run_callOpened_close hd hc))⟩
  | .call hk ho hargs hc, levels, stop, hn, hle, _, _ => by
    have hd : Within cap (levels.length + 1) := hcap.mono (by omega)
    obtain ⟨t, ts', hts, ht⟩ := head_ne_of_arguments hargs
    exact ⟨_, (run_nothing hd (by rw [hk]; decide) (startValue_identifier levels hk)).trans
      ((run_name_bracketOpen hd ho).trans ((run_callOpened (by rw [hts]; exact ht)).trans
        (hargs.run_eq hcap _ _ rfl hc _ _ [] levels _ hn)))⟩
  | @Phrase.group _ _ opening _ _ _ _ ho hlt hsum hc, levels, stop, hn, hle, _, _ => by
    have hd : Within cap (levels.length + 2) := hcap.mono (by omega)
    obtain ⟨stop', hrun⟩ := hsum.run_eq hcap (.group opening :: levels) opening.stop (by rw [List.length_cons, hn]) hlt
      (Nat.zero_le _) (ends_cons_of_not_trailing _ (by rw [hc]; decide))
    exact ⟨_, (run_nothing (hd.mono (Nat.le_succ _)) (by rw [ho]; decide) (startValue_bracketOpen levels ho)).trans
      (hrun.trans (run_value hd (by rw [hc]; decide) (stepBehind_group_close _ hc)))⟩
  | @Phrase.sign _ _ t op _ rest _ hk hlt hprimary, levels, stop, hn, hle, _, _ => by
    have hd : Within cap (levels.length + 2) := hcap.mono (by omega)
    obtain ⟨hlead, hfive⟩ := leading?_of_sign? hk
    obtain ⟨stop', hrun⟩ := hprimary.run_eq hcap (.operand op :: levels) t.stop (by rw [List.length_cons, hn]) hlt
      (Nat.le_of_eq hfive) (ends_of_five rfl _)
    have hends : Rung.primary.Ends rest := ends_of_five rfl rest
    exact ⟨_, (run_nothing (hd.mono (Nat.le_succ _)) (by rintro h; rw [h] at hk; cases hk)
      (startValue_leading levels hlead)).trans
      (hrun.trans (run_operand hd (hends.taken?_none stop' (Nat.le_of_eq hfive.symm))))⟩
  | @Phrase.root _ _ t _ rest _ hk hlt hsum hnext, levels, stop, hn, hle, _, _ => by
    have hd : Within cap (levels.length + 2) := hcap.mono (by omega)
    obtain ⟨stop', hrun⟩ := hsum.run_eq hcap (.operand .sqrt :: levels) t.stop (by rw [List.length_cons, hn]) hlt
      (Nat.le_refl 1) (ends_of_not_trailing _ hnext)
    refine ⟨stop', (run_nothing (hd.mono (Nat.le_succ _)) (by rw [hk]; decide)
      (startValue_leading levels (by rw [hk]; rfl))).trans (hrun.trans (run_operand hd ?_))⟩
    cases rest with
    | nil => exact taken?_of_no_trailing rfl
    | cons next rest => exact taken?_of_no_trailing (trailing?_eq_none.2 (hnext next rfl))
  | .ofPrimary h, levels, stop, hn, hle, hs, _ =>
    h.run_eq hcap levels stop hn hle (Nat.le_trans hs (by decide)) (ends_of_five rfl _)
  | @Phrase.bang _ _ t _ _ _ h ht, levels, stop, hn, hle, hs, _ => by
    have hop : t.kind.trailing? = some (.unary .factorial) := by rw [ht]; rfl
    obtain ⟨stop', hrun⟩ := h.run_eq hcap levels stop hn hle hs (ends_of_five rfl _)
    exact ⟨_, hrun.trans (run_taken stop' (hcap.mono (by omega)) hop hs)⟩
  | .ofFactorial h, levels, stop, hn, hle, hs, _ =>
    h.run_eq hcap levels stop hn hle (Nat.le_trans hs (by decide)) (ends_of_five rfl _)
  | @Phrase.caret _ _ t _ _ _ left _ h ht hlt hright, levels, stop, hn, hle, hs, hends => by
    obtain ⟨stop₁, hrun⟩ := h.run_eq hcap levels stop hn hle (Nat.le_trans hs (by decide)) (ends_of_five rfl _)
    obtain ⟨stop₂, hrun₂⟩ := hright.run_eq hcap (.rightOperand .pow left :: levels) t.stop
      (by rw [List.length_cons, hn]) hlt (Nat.le_refl 3) hends
    have hop : t.kind.trailing? = some (.binary .pow) := by rw [ht]; rfl
    exact ⟨stop₂, hrun.trans (run_between stop₁ (hcap.mono (by omega)) hop hs hrun₂ hends (Nat.le_refl 3))⟩
  | .ofPower h, levels, stop, hn, hle, hs, hends =>
    h.run_eq hcap levels stop hn hle (Nat.le_trans hs (by decide)) (hends.mono (Nat.le_refl 3))
  | @Phrase.times _ _ t op _ mid _ left _ h ht hlt hright, levels, stop, hn, hle, hs, hends => by
    obtain ⟨hop, h2, h3⟩ := trailing?_of_productOp? ht
    obtain ⟨stop₁, hrun⟩ := h.run_eq hcap levels stop hn hle hs
      (ends_cons_of_trailing mid hop (Nat.lt_of_le_of_lt (Nat.le_of_eq h2) (by decide)))
    obtain ⟨stop₂, hrun₂⟩ := hright.run_eq hcap (.rightOperand op left :: levels) t.stop
      (by rw [List.length_cons, hn]) hlt (Nat.le_of_eq h3) hends
    have hleast : leastStrength levels ≤ op.strength := Nat.le_trans hs (Nat.le_of_eq h2.symm)
    exact ⟨stop₂, hrun.trans (run_between stop₁ (hcap.mono (by omega)) hop hleast hrun₂ hends (Nat.le_of_eq h3.symm))⟩
  | .ofProduct h, levels, stop, hn, hle, hs, hends =>
    h.run_eq hcap levels stop hn hle (Nat.le_trans hs (by decide)) (hends.mono (by decide))
  | @Phrase.plus _ _ t op _ mid _ left _ h ht hlt hright, levels, stop, hn, hle, hs, hends => by
    obtain ⟨hop, h1, h2⟩ := trailing?_of_sumOp? ht
    obtain ⟨stop₁, hrun⟩ := h.run_eq hcap levels stop hn hle hs
      (ends_cons_of_trailing mid hop (Nat.lt_of_le_of_lt (Nat.le_of_eq h1) (by decide)))
    obtain ⟨stop₂, hrun₂⟩ := hright.run_eq hcap (.rightOperand op left :: levels) t.stop
      (by rw [List.length_cons, hn]) hlt (Nat.le_of_eq h2) (hends.mono (by decide))
    have hleast : leastStrength levels ≤ op.strength := Nat.le_trans hs (Nat.le_of_eq h1.symm)
    exact ⟨stop₂, hrun.trans (run_between stop₁ (hcap.mono (by omega)) hop hleast hrun₂ hends (Nat.le_of_eq h2.symm))⟩

/-- Reading the arguments of a call, and the bracket behind them, leads to the call. -/
theorem Arguments.run_eq (hcap : Within cap limit) {n : Nat} {ts after : List Token} {es : List Expr} :
    Arguments limit n ts es after → ∀ (closing : Token) (rest : List Token), after = closing :: rest →
      closing.kind = .bracketClose → ∀ (name opening : Token) (before : List Expr) (levels : List Level) (stop : Int),
      levels.length + 1 = n →
      run cap failure ⟨.argument name opening before :: levels, .nothing⟩ stop ts =
        run cap failure ⟨levels, .value (.call name.lexeme (before.reverse ++ es) (some name.position))⟩ closing.stop
          rest
  | .last hlt hsum, closing, rest, hafter, hc, name, opening, before, levels, stop, hn => by
    have hd : Within cap (levels.length + 2) := hcap.mono (by omega)
    obtain ⟨stop', hrun⟩ := hsum.run_eq hcap (.argument name opening before :: levels) stop
      (by rw [List.length_cons, hn]) hlt (Nat.zero_le _)
      (by rw [hafter]; exact ends_cons_of_not_trailing _ (by rw [hc]; decide))
    rw [hrun, hafter, run_value hd (by rw [hc]; decide) (stepBehind_argument_close _ hc), List.reverse_cons]
  | .more hlt hsum hcomma hargs, closing, rest, hafter, hc, name, opening, before, levels, stop, hn => by
    have hd : Within cap (levels.length + 2) := hcap.mono (by omega)
    obtain ⟨stop', hrun⟩ := hsum.run_eq hcap (.argument name opening before :: levels) stop
      (by rw [List.length_cons, hn]) hlt (Nat.zero_le _) (ends_cons_of_not_trailing _ (by rw [hcomma]; decide))
    rw [hrun, run_value hd (by rw [hcomma]; decide) (stepBehind_argument_comma _ hcomma),
      hargs.run_eq hcap closing rest hafter hc name opening _ levels _ hn, List.reverse_cons, List.append_assoc]
    rfl

end

end Calculator
