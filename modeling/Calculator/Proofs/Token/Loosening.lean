import Calculator.Proofs.Token.Words
/-!
# Blanks between tokens

Blanks may be put into a text wherever no token is cut: in front of it, behind it, between two tokens or among the
blanks that are there already.  The scanner then stops at the same characters: a blank ends the token at hand as surely
as the character that ended it before, and a point keeps the digit behind it.  So the tokens are the same, and each of
them has moved by the blanks that were put in before it (`scan_loosen`).
-/
namespace Calculator

/-! ## Putting characters into a text

`inserted i` goes in front of the character with the index `i`, or behind the last one if there is none. -/

section Inserting

variable (inserted : Nat → Text)

/-- The rest of a text, from the index `i` on, with what is put into it. -/
def loosenFrom (i : Nat) : Text → Text
  | [] => inserted i
  | c :: rest => inserted i ++ c :: loosenFrom (i + 1) rest

def loosen (code : Text) : Text := loosenFrom inserted 0 code

/-- How many characters are put in front of the first `n` characters. -/
def insertedBefore : Nat → Nat
  | 0 => 0
  | n + 1 => insertedBefore n + (inserted n).length

/-- A place, moved by all that is put in before it. -/
def moved (place : Int) : Int := place + insertedBefore inserted (place.toNat + 1)

def Token.moved (t : Token) : Token := { t with position := Calculator.moved inserted t.position }

def Pending.moved : Pending → Pending
  | between => between
  | number phase start read => number phase (start + insertedBefore inserted (start + 1)) read
  | name start read => name (start + insertedBefore inserted (start + 1)) read

/-- Only blanks are put in, and none inside of a token. -/
structure Loosens (ts : List Token) : Prop where
  blank : ∀ i, ∀ c ∈ inserted i, isBlank c = true
  outside : ∀ t ∈ ts, ∀ i : Nat, t.position < i → (i : Int) < t.stop → inserted i = []

end Inserting

variable {inserted : Nat → Text} {pending longer inside : Pending} {position : Nat} {c : Char} {rest : Text}
  {closed started : List Token}

theorem moved_natCast (place : Nat) :
    moved inserted place = (place + insertedBefore inserted (place + 1) : Nat) := rfl

theorem Loosens.of_append {ts us : List Token} (h : Loosens inserted (ts ++ us)) : Loosens inserted us :=
  ⟨h.blank, fun t ht => h.outside t (List.mem_append_right _ ht)⟩

/-! ## The token at hand -/

/-- Without a fault the token at hand is the first one, and it holds all that has been read of it. -/
theorem first_of_pending (pending : Pending) (position : Nat) (rest : Text) :
    pending ≠ .between → pending.Holds position → (scanFrom pending position rest).failure = none →
      ∃ t ts, (scanFrom pending position rest).tokens = t :: ts ∧ t.position = pending.startFrom position ∧
        (position : Int) ≤ t.stop := by
  have completed : ∀ {pending : Pending} {position : Nat} {closed more : List Token}, pending ≠ .between →
      pending.Holds position → pending.close = .ok closed →
      ∃ t ts, closed ++ more = t :: ts ∧ t.position = pending.startFrom position ∧ (position : Int) ≤ t.stop := by
    intro pending position closed more hne hp hclose
    rcases Pending.close_eq_ok hclose with ⟨hbetween, -⟩ | ⟨-, t, rfl, -, htext, hposition⟩
    · exact absurd hbetween hne
    · refine ⟨t, more, rfl, hposition position, ?_⟩
      have := hp.position_eq
      rw [Token.stop, hposition position, htext]
      omega
  refine @scan_induction
    (fun pending position rest => pending ≠ .between → pending.Holds position →
      (scanFrom pending position rest).failure = none →
        ∃ t ts, (scanFrom pending position rest).tokens = t :: ts ∧ t.position = pending.startFrom position ∧
          (position : Int) ≤ t.stop) ?_ ?_ ?_ ?_ ?_ ?_ pending position rest
  · intro pending position hne hp h
    cases hclose : pending.close with
    | error e =>
      rw [scanFrom, hclose] at h
      cases h
    | ok closed =>
      rw [scanFrom_nil hclose]
      exact completed hne hp hclose
  · exact fun position c rest _ hne => absurd rfl hne
  · intro pending longer position c rest habsorb ih _ hp h
    obtain ⟨-, hne, -, hstart, -⟩ := Pending.absorb?_eq_some habsorb
    rw [scanFrom_absorb habsorb] at h ⊢
    obtain ⟨t, ts, htokens, hposition, hstop⟩ := ih hne (hp.absorb habsorb) h
    exact ⟨t, ts, htokens, by rw [hposition, hstart _ position], by omega⟩
  · intro pending position c rest e habsorb hclose _ _ h
    rw [scanFrom_broken habsorb hclose] at h
    cases h
  · intro pending position c rest closed habsorb hclose hrefuse _ _ h
    rw [scanFrom_refused habsorb hclose hrefuse] at h
    cases h
  · intro pending position c rest closed habsorb hclose hrefuse _ hne hp _
    rw [scanFrom_closed habsorb hclose hrefuse]
    exact completed hne hp hclose

/-- Nothing is put in front of a character that the token at hand takes. -/
theorem Loosens.absorbed (hp : pending.Holds position) (habsorb : pending.absorb? c = some longer)
    (h : (scanFrom longer (position + 1) rest).failure = none)
    (hins : Loosens inserted (scanFrom longer (position + 1) rest).tokens) : inserted position = [] := by
  obtain ⟨-, hne, hbetween, hstart, -⟩ := Pending.absorb?_eq_some habsorb
  obtain ⟨t, ts, htokens, hposition, hstop⟩ := first_of_pending longer (position + 1) rest hne (hp.absorb habsorb) h
  have htext := List.length_pos_iff.2 (hp.text_ne hbetween)
  have hlength := hp.position_eq
  rw [hstart (position + 1) position] at hposition
  exact hins.outside t (by rw [htokens]; exact List.mem_cons_self) position (by omega) (by omega)

/-! ## The token at hand, moved -/

theorem Pending.absorb?_moved (pending : Pending) (c : Char) :
    (pending.moved inserted).absorb? c = (pending.absorb? c).map (Pending.moved inserted) := by
  cases pending with
  | between => rfl
  | number phase start read =>
    simp only [Pending.moved, absorb?]
    cases phase.next? c <;> rfl
  | name start read =>
    simp only [Pending.moved, absorb?]
    split <;> rfl

theorem Pending.close_moved (h : pending.close = .ok closed) :
    (pending.moved inserted).close = .ok (closed.map (Token.moved inserted)) := by
  cases pending with
  | between =>
    cases h
    rfl
  | number phase start read =>
    rw [close] at h
    split at h
    · rename_i hcomplete
      cases h
      rw [Pending.moved, close, if_pos hcomplete]
      rfl
    · cases h
  | name start read =>
    cases h
    rfl

theorem Pending.refuses_moved (pending : Pending) (c : Char) :
    (pending.moved inserted).refuses c = pending.refuses c := by
  cases pending <;> rfl

theorem begin_moved {next : Option Char} (h : begin position c next = .ok (started, inside)) :
    begin (position + insertedBefore inserted (position + 1)) c next =
      .ok (started.map (Token.moved inserted), inside.moved inserted) := by
  unfold begin at h ⊢
  cases hc : isBlank c with
  | true =>
    simp only [hc, if_true] at h ⊢
    cases h
    rfl
  | false =>
    simp only [hc, Bool.false_eq_true, if_false] at h ⊢
    cases hstart : LiteralPhase.start? c next with
    | some phase =>
      simp only [hstart] at h ⊢
      cases h
      rfl
    | none =>
      simp only [hstart] at h ⊢
      cases hletter : isLetter c with
      | true =>
        simp only [hletter, if_true] at h ⊢
        cases h
        rfl
      | false =>
        simp only [hletter, Bool.false_eq_true, if_false] at h ⊢
        cases hkind : TokenKind.ofSymbol? c with
        | some kind =>
          simp only [hkind] at h ⊢
          cases h
          rfl
        | none =>
          simp only [hkind] at h
          cases h

/-! ## The rest of a text, loosened -/

theorem scanFrom_blanks {gap : Text} (hgap : ∀ c ∈ gap, isBlank c = true) :
    scanFrom .between position (gap ++ rest) = scanFrom .between (position + gap.length) rest := by
  induction gap generalizing position with
  | nil => rfl
  | cons c gap ih =>
    rw [List.cons_append, scanFrom_blank (hgap c List.mem_cons_self),
      ih fun d hd => hgap d (List.mem_cons_of_mem c hd), List.length_cons, Nat.add_assoc, Nat.add_comm 1]

/-- A blank ends the token at hand. -/
theorem absorb?_of_isBlank (pending : Pending) (hc : isBlank c = true) :
    pending.absorb? c = none ∧ pending.refuses c = false := by
  constructor
  · refine Option.eq_none_iff_forall_not_mem.2 fun longer hlonger => ?_
    have hnot := (Pending.absorb?_eq_some hlonger).2.2.2.2
    rw [hc] at hnot
    cases hnot
  · cases pending with
    | between | name => rfl
    | number phase start read =>
      refine beq_eq_false_iff_ne.2 ?_
      rintro rfl
      exact absurd hc (by decide)

theorem head?_loosenFrom (hins : inserted position = []) :
    (loosenFrom inserted position rest).head? = rest.head? := by
  cases rest with
  | nil => rw [loosenFrom, hins]
  | cons c rest => rw [loosenFrom, hins]; rfl

/-- What begins at a character begins there as well when the text is loosened. -/
theorem begin_loosened (hbegin : begin position c rest.head? = .ok (started, inside))
    (h : (scanFrom inside (position + 1) rest).failure = none)
    (hins : Loosens inserted (scanFrom inside (position + 1) rest).tokens) :
    begin (position + insertedBefore inserted (position + 1)) c (loosenFrom inserted (position + 1) rest).head? =
      .ok (started.map (Token.moved inserted), inside.moved inserted) := by
  refine (begin_congr ?_).trans (begin_moved hbegin)
  rintro rfl
  obtain ⟨rfl, d, hd, hdigit⟩ := begin_point hbegin
  match rest with
  | d' :: rest =>
    cases hd
    have habsorb : (Pending.number .fraction position ['.']).absorb? d = some (.number .fraction position [d, '.']) := by
      simp [Pending.absorb?, LiteralPhase.next?, hdigit]
    have hp : (Pending.number .fraction position ['.']).Holds (position + 1) :=
      ⟨rfl, fun _ => List.cons_ne_nil _ _, fun e he => by rw [List.mem_singleton.1 he]; decide⟩
    rw [scanFrom_absorb habsorb] at h hins
    exact head?_loosenFrom (hins.absorbed hp habsorb h)

/-- Scanning the rest of a text leads to the same tokens, moved, when the rest is loosened. -/
def ScansLoosened (inserted : Nat → Text) (pending : Pending) (position : Nat) (rest : Text) : Prop :=
  pending.Holds position → (scanFrom pending position rest).failure = none →
    Loosens inserted (scanFrom pending position rest).tokens →
    scanFrom (pending.moved inserted) (position + insertedBefore inserted position) (loosenFrom inserted position rest) =
      ⟨(scanFrom pending position rest).tokens.map (Token.moved inserted), none⟩

theorem scansLoosened_between
    (ih : ∀ pending : Pending, ScansLoosened inserted pending (position + 1) rest) :
    ScansLoosened inserted .between position (c :: rest) := by
  intro _ h hins
  have hgap : position + insertedBefore inserted position + (inserted position).length =
      position + insertedBefore inserted (position + 1) := by rw [insertedBefore, Nat.add_assoc]
  rw [loosenFrom, Pending.moved, scanFrom_blanks (hins.blank position), hgap]
  cases hbegin : begin position c rest.head? with
  | error e =>
    rw [scanFrom_unexpected hbegin] at h
    cases h
  | ok begun =>
    obtain ⟨started, inside⟩ := begun
    have hp : inside.Holds (position + 1) := by
      rcases begin_cases position c rest.head? with
        ⟨-, heq⟩ | ⟨hc, _, heq, hopened⟩ | ⟨-, _, -, heq⟩ | heq <;> rw [hbegin] at heq <;> cases heq
      · exact Pending.holds_between _
      · exact hopened.holds hc
      · exact Pending.holds_between _
    rw [scanFrom_begin hbegin] at h hins ⊢
    have hrest : (scanFrom inside (position + 1) rest).failure = none := h
    rw [scanFrom_begin (begin_loosened hbegin hrest hins.of_append), Nat.add_right_comm,
      ih inside hp hrest hins.of_append]
    simp only [Source.prepend, List.map_append]

theorem scanFrom_loosened (pending : Pending) (position : Nat) (rest : Text) :
    ScansLoosened inserted pending position rest := by
  refine @scan_induction (ScansLoosened inserted) ?_ ?_ ?_ ?_ ?_ ?_ pending position rest
  · intro pending position _ h hins
    cases hclose : pending.close with
    | error e =>
      rw [scanFrom, hclose] at h
      cases h
    | ok closed =>
      have hblanks := hins.blank position
      have hends : ∀ d, (inserted position).head? = some d →
          (pending.moved inserted).absorb? d = none ∧ (pending.moved inserted).refuses d = false :=
        fun d hd => absorb?_of_isBlank _ (hblanks d (List.mem_of_mem_head? hd))
      rw [loosenFrom, scanFrom_complete (Pending.close_moved hclose) hends, scanFrom_nil hclose,
        ← List.append_nil (inserted position), scanFrom_blanks hblanks, scanFrom_nil rfl]
      simp only [Source.prepend, List.nil_append, List.map_append, List.map_cons, List.map_nil, Token.moved,
        Token.endMark, moved_natCast, insertedBefore, Nat.add_assoc]
  · exact fun position c rest ih => scansLoosened_between ih
  · intro pending longer position c rest habsorb ih hp h hins
    rw [scanFrom_absorb habsorb] at h hins ⊢
    have hnone := hins.absorbed hp habsorb h
    have hlonger : (pending.moved inserted).absorb? c = some (longer.moved inserted) := by
      rw [Pending.absorb?_moved, habsorb]
      rfl
    have hbefore : insertedBefore inserted (position + 1) = insertedBefore inserted position := by
      rw [insertedBefore, hnone]
      rfl
    rw [loosenFrom, hnone, List.nil_append, scanFrom_absorb hlonger, Nat.add_right_comm, ← hbefore]
    exact ih (hp.absorb habsorb) h hins
  · intro pending position c rest e habsorb hclose _ h
    rw [scanFrom_broken habsorb hclose] at h
    cases h
  · intro pending position c rest closed habsorb hclose hrefuse _ h
    rw [scanFrom_refused habsorb hclose hrefuse] at h
    cases h
  · intro pending position c rest closed habsorb hclose hrefuse ih _ h hins
    rw [scanFrom_closed habsorb hclose hrefuse] at h hins ⊢
    have hends : ∀ d, (loosenFrom inserted position (c :: rest)).head? = some d →
        (pending.moved inserted).absorb? d = none ∧ (pending.moved inserted).refuses d = false := by
      intro d hd
      rw [loosenFrom] at hd
      cases hgap : inserted position with
      | nil =>
        rw [hgap] at hd
        cases hd
        rw [Pending.absorb?_moved, habsorb, Pending.refuses_moved]
        exact ⟨rfl, hrefuse⟩
      | cons blank gap =>
        have hblank := hins.blank position blank (by rw [hgap]; exact List.mem_cons_self)
        rw [hgap] at hd
        cases hd
        exact absorb?_of_isBlank _ hblank
    rw [scanFrom_complete (Pending.close_moved hclose) hends]
    have hbetween := ih (Pending.holds_between position) h hins.of_append
    rw [Pending.moved] at hbetween
    rw [hbetween]
    simp only [Source.prepend, List.map_append]

/-- **A loosened text has the same tokens**, each moved by what was put in before it. -/
theorem scan_loosen {code : Text} (h : (scan code).failure = none) (hins : Loosens inserted (scan code).tokens) :
    scan (loosen inserted code) = ⟨(scan code).tokens.map (Token.moved inserted), none⟩ :=
  scanFrom_loosened .between 0 code (Pending.holds_between 0) h hins

end Calculator
