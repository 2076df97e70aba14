import Calculator.Proofs.Expr.Accepted
import Calculator.Proofs.Expr.ReadingOrder
/-!
# Neighbours

Which tokens stand next to each other in an expression.  A token ends a value or it does not, and this alone decides what
may stand behind it, apart from brackets: behind a name one may open a call, and one that closes the call may stand
directly behind it.  The reader that knows no operator from another asks for no more than this and brackets in pairs, so
the tokens of an expression are well placed (`wellPlaced_of_parse`).
-/
namespace Calculator

/-! ## What may stand behind a token -/

namespace TokenKind

/-- A value may end with such a token. -/
def endsValue : TokenKind → Bool
  | number | identifier | bang | bracketClose => true
  | _ => false

/-- A value may start with such a token. -/
def startsValue : TokenKind → Bool
  | number | identifier | bracketOpen | plus | minus | root => true
  | _ => false

/-- A value may go on or end with such a token behind it. -/
def goesOn : TokenKind → Bool
  | bang | caret | star | slash | percent | plus | minus | bracketClose | comma => true
  | _ => false

end TokenKind

/-- A token of the kind `k` may stand behind one of the kind `previous`, or in front of all others. -/
def MayFollow (previous : Option TokenKind) (k : TokenKind) : Prop :=
  if previous.any TokenKind.endsValue then
    k.goesOn = true ∨ previous = some .identifier ∧ k = .bracketOpen
  else k.startsValue = true ∨ previous = some .bracketOpen ∧ k = .bracketClose

instance (previous : Option TokenKind) (k : TokenKind) : Decidable (MayFollow previous k) :=
  inferInstanceAs (Decidable (if previous.any TokenKind.endsValue then
    k.goesOn = true ∨ previous = some .identifier ∧ k = .bracketOpen
  else k.startsValue = true ∨ previous = some .bracketOpen ∧ k = .bracketClose))

/-- Every token may stand behind the one before it, and the last one ends a value. -/
def WellPlaced (previous : Option TokenKind) : List Token → Prop
  | [] => previous.any TokenKind.endsValue = true
  | t :: rest => MayFollow previous t.kind ∧ WellPlaced (some t.kind) rest

/-! ## The reader places tokens well -/

namespace Reader

/-- What the reader expects is what the token directly before calls for. -/
def Primed (r : Reader) : Prop :=
  r.expected = if r.previous.any TokenKind.endsValue then .operator else .operand

variable {r next : Reader} {t : Token}

theorem operand_ok (h : r.operand t = .ok next) :
    (t.kind.startsValue = true ∨ r.previous = some .bracketOpen ∧ t.kind = .bracketClose) ∧
      next.previous = some t.kind ∧ next.Primed := by
  unfold operand at h
  cases hk : t.kind <;> simp only [hk] at h
  case bracketClose =>
    split at h
    · rename_i hcall
      cases h
      exact ⟨.inr ⟨eq_of_beq (Bool.and_eq_true_iff.1 hcall).1, rfl⟩, rfl, rfl⟩
    · cases h
  case number | identifier | bracketOpen | plus | minus | root =>
    cases h
    exact ⟨.inl rfl, rfl, rfl⟩
  all_goals cases h

theorem operator_ok (h : r.operator t = .ok next) :
    (t.kind.goesOn = true ∨ r.previous = some .identifier ∧ t.kind = .bracketOpen) ∧
      next.previous = some t.kind ∧ next.Primed := by
  unfold operator at h
  cases hk : t.kind <;> simp only [hk] at h
  case bracketOpen =>
    split at h
    · rename_i hname
      cases h
      exact ⟨.inr ⟨hname, rfl⟩, rfl, rfl⟩
    · cases h
  case bracketClose =>
    split at h
    · cases h
    · cases h
      exact ⟨.inl rfl, rfl, rfl⟩
  case comma =>
    split at h
    · cases h
      exact ⟨.inl rfl, rfl, rfl⟩
    · cases h
  case bang | caret | star | slash | percent | plus | minus =>
    cases h
    exact ⟨.inl rfl, rfl, rfl⟩
  all_goals cases h

/-- **A token that the reader takes** may stand where it stands. -/
theorem token_ok (hr : r.Primed) (h : r.token t = .ok next) :
    MayFollow r.previous t.kind ∧ next.previous = some t.kind ∧ next.Primed := by
  obtain ⟨expected, brackets, previous⟩ := r
  cases hends : previous.any TokenKind.endsValue with
  | false =>
    obtain rfl : expected = .operand := hr.trans (if_neg (by rw [hends]; decide))
    obtain ⟨hplace, hnext⟩ := operand_ok h
    exact ⟨by rwa [MayFollow, hends, if_neg Bool.false_ne_true], hnext⟩
  | true =>
    obtain rfl : expected = .operator := hr.trans (if_pos hends)
    obtain ⟨hplace, hnext⟩ := operator_ok h
    exact ⟨by rwa [MayFollow, hends, if_pos rfl], hnext⟩

theorem wellPlaced_of_read {last : Token} (hlast : last.isEnd = true) : ∀ {front : List Token} {r : Reader} (stop : Int),
    r.Primed → (∀ t ∈ front, t.isEnd = false) → r.read none stop (front ++ [last]) = .ok () →
      WellPlaced r.previous front
  | [], ⟨expected, _, previous⟩, stop, hr, _, h => by
    simp only [List.nil_append, read, hlast, if_true] at h
    cases hends : previous.any TokenKind.endsValue with
    | true => exact hends
    | false =>
      obtain rfl : expected = .operand := hr.trans (if_neg (by rw [hends]; decide))
      cases h
  | t :: front, r, stop, hr, hfront, h => by
    rw [List.cons_append, read, hfront t List.mem_cons_self] at h
    simp only [Bool.false_eq_true, if_false] at h
    split at h
    · cases h
    · rename_i next hnext
      obtain ⟨hfollow, hprevious, hprimed⟩ := token_ok hr hnext
      have hrest := wellPlaced_of_read hlast t.stop hprimed (fun u hu => hfront u (List.mem_cons_of_mem t hu)) h
      exact ⟨hfollow, hprevious ▸ hrest⟩

end Reader

/-- **The tokens of an expression are well placed.** -/
theorem wellPlaced_of_parse {code : Text} {tree : Expr} (h : parse (scan code) = .ok tree) :
    WellPlaced none (beforeEnd (scan code).tokens) := by
  obtain ⟨front, hscan, htiling, -⟩ := accepted_of_parse h
  have hread : readThrough (scan code) = .ok () := by
    rcases parseWithin_outcome nestingLimit (scan code) (scan_readable code) with houtcome | ⟨t, hdeep⟩
    · rw [← houtcome]
      exact congrArg (Except.map fun _ => ()) h
    · cases h.symm.trans hdeep
  rw [hscan] at hread ⊢
  rw [beforeEnd_append_endMark htiling.isEnd_eq_false]
  exact Reader.wellPlaced_of_read (r := .initial) rfl 0 rfl htiling.isEnd_eq_false hread

end Calculator
