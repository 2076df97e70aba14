import Calculator.Proofs.Token.Scanning
/-!
# Tokens and blanks tile the text

Where the scanner finds no fault, the text is its tokens, one behind the other, with blanks around them and nothing else
(`tiling_of_scanFrom`).  All that can be said about the places of tokens follows from this.
-/
namespace Calculator

/-- `Tiling p text ts`: the text, which starts at the place `p`, is made of the tokens `ts` and of blanks. -/
inductive Tiling : Nat → Text → List Token → Prop
  | nil {p : Nat} : Tiling p [] []
  | blank {p : Nat} {c : Char} {text : Text} {ts : List Token} :
      isBlank c = true → Tiling (p + 1) text ts → Tiling p (c :: text) ts
  | token {p : Nat} {t : Token} {text : Text} {ts : List Token} :
      t.kind ≠ .exprEnd → t.position = p → t.lexeme ≠ [] → (∀ c ∈ t.lexeme, isBlank c = false) →
      Tiling (p + t.lexeme.length) text ts → Tiling p (t.lexeme ++ text) (t :: ts)

/-! ## The scanner tiles -/

/-- Unless there is a fault, the token at hand and the text behind it are tiled. -/
def Tiled (pending : Pending) (position : Nat) (rest : Text) : Prop :=
  (scanFrom pending position rest).failure = none →
    ∃ front, (scanFrom pending position rest).tokens = front ++ [.endMark (position + rest.length : Nat)] ∧
      Tiling (pending.startFrom position) (pending.text ++ rest) front

theorem Tiling.closed {pending : Pending} {position : Nat} {text : Text} {closed ts : List Token}
    (hp : pending.Holds position) (hclose : pending.close = .ok closed) (h : Tiling position text ts) :
    Tiling (pending.startFrom position) (pending.text ++ text) (closed ++ ts) := by
  rcases Pending.close_eq_ok hclose with ⟨rfl, rfl⟩ | ⟨hne, t, rfl, hk, htext, hposition⟩
  · exact h
  · rw [← htext]
    refine .token hk (hposition position) ?_ ?_ ?_
    · rw [htext]
      exact hp.text_ne hne
    · rw [htext]
      exact hp.not_blank
    · rw [htext, ← hp.position_eq]
      exact h

theorem Tiled.nil {pending : Pending} {position : Nat} (hp : pending.Holds position) : Tiled pending position [] := by
  intro h
  cases hclose : pending.close with
  | error e =>
    rw [scanFrom, hclose] at h
    cases h
  | ok closed =>
    rw [scanFrom_nil hclose]
    exact ⟨closed, rfl, by simpa using Tiling.closed hp hclose .nil⟩

theorem Tiled.between {position : Nat} {c : Char} {rest : Text}
    (ih : ∀ pending : Pending, pending.Holds (position + 1) → Tiled pending (position + 1) rest) :
    Tiled .between position (c :: rest) := by
  intro h
  have hlength : position + (c :: rest).length = position + 1 + rest.length := by
    rw [List.length_cons, Nat.add_assoc, Nat.add_comm 1]
  rw [hlength]
  rcases begin_cases position c rest.head? with
    ⟨hc, hbegin⟩ | ⟨hc, inside, hbegin, hopened⟩ | ⟨hc, kind, hkind, hbegin⟩ | hbegin
  · rw [scanFrom_begin hbegin] at h ⊢
    obtain ⟨front, htokens, htiling⟩ := ih .between (Pending.holds_between _) h
    exact ⟨front, htokens, .blank hc htiling⟩
  · rw [scanFrom_begin hbegin] at h ⊢
    obtain ⟨front, htokens, htiling⟩ := ih inside (hopened.holds hc) h
    rw [hopened.start_eq, hopened.text_eq] at htiling
    exact ⟨front, htokens, htiling⟩
  · rw [scanFrom_begin hbegin] at h ⊢
    obtain ⟨front, htokens, htiling⟩ := ih .between (Pending.holds_between _) h
    refine ⟨⟨kind, [c], position⟩ :: front, by rw [Source.prepend, htokens]; rfl, ?_⟩
    refine @Tiling.token position ⟨kind, [c], position⟩ rest front ?_ rfl (List.cons_ne_nil _ _) ?_ htiling
    · rintro rfl
      exact ofSymbol?_ne_exprEnd hkind
    · intro d hd
      rw [List.mem_singleton.1 hd]
      exact hc
  · rw [scanFrom_unexpected hbegin] at h
    cases h

theorem Tiled.absorb {pending longer : Pending} {position : Nat} {c : Char} {rest : Text}
    (habsorb : pending.absorb? c = some longer) (ih : Tiled longer (position + 1) rest) :
    Tiled pending position (c :: rest) := by
  intro h
  obtain ⟨htext, -, -, hstart, -⟩ := Pending.absorb?_eq_some habsorb
  rw [scanFrom_absorb habsorb] at h ⊢
  obtain ⟨front, htokens, htiling⟩ := ih h
  rw [hstart _ position, htext, List.append_assoc] at htiling
  refine ⟨front, ?_, htiling⟩
  rw [htokens, List.length_cons, Nat.add_assoc, Nat.add_comm 1]

/-- **The scanner tiles the text.** -/
theorem tiling_of_scanFrom (pending : Pending) (position : Nat) (rest : Text) :
    pending.Holds position → Tiled pending position rest := by
  refine @scan_induction (fun pending position rest => pending.Holds position → Tiled pending position rest)
    ?_ ?_ ?_ ?_ ?_ ?_ pending position rest
  · exact fun pending position hp => .nil hp
  · exact fun position c rest ih _ => .between ih
  · exact fun pending longer position c rest habsorb ih hp => .absorb habsorb (ih (hp.absorb habsorb))
  · intro pending position c rest e habsorb hclose _ h
    rw [scanFrom_broken habsorb hclose] at h
    cases h
  · intro pending position c rest closed habsorb hclose hrefuse _ h
    rw [scanFrom_refused habsorb hclose hrefuse] at h
    cases h
  · intro pending position c rest closed habsorb hclose hrefuse ih hp h
    rw [scanFrom_closed habsorb hclose hrefuse] at h ⊢
    obtain ⟨front, htokens, htiling⟩ := ih (Pending.holds_between position) h
    refine ⟨closed ++ front, ?_, htiling.closed hp hclose⟩
    rw [Source.prepend, htokens, List.append_assoc]

/-! ## What a tiling says -/

namespace Tiling

variable {p : Nat} {text : Text} {ts : List Token}

theorem slice (h : Tiling p text ts) : ∀ t ∈ ts, ∃ q : Nat, t.position = (p + q : Nat) ∧
    q + t.lexeme.length ≤ text.length ∧ (text.drop q).take t.lexeme.length = t.lexeme := by
  induction h with
  | nil => nofun
  | blank _ _ ih =>
    intro t ht
    obtain ⟨q, hposition, hlength, hslice⟩ := ih t ht
    refine ⟨q + 1, by rw [hposition, Nat.add_assoc, Nat.add_comm 1], ?_, hslice⟩
    rw [List.length_cons]
    omega
  | @token p first text ts _ hposition _ _ _ ih =>
    intro t ht
    rcases List.mem_cons.1 ht with rfl | ht
    · exact ⟨0, hposition, by rw [List.length_append]; omega, by rw [List.drop_zero, List.take_left]⟩
    · obtain ⟨q, hposition, hlength, hslice⟩ := ih t ht
      refine ⟨first.lexeme.length + q, by rw [hposition, Nat.add_assoc], ?_, ?_⟩
      · rw [List.length_append]
        omega
      · rw [List.drop_length_add_append]
        exact hslice

theorem le_position (h : Tiling p text ts) : ∀ t ∈ ts, (p : Int) ≤ t.position := by
  intro t ht
  obtain ⟨q, hposition, -, -⟩ := h.slice t ht
  omega

theorem stop_le (h : Tiling p text ts) : ∀ t ∈ ts, t.stop ≤ (p + text.length : Nat) := by
  intro t ht
  obtain ⟨q, hposition, hlength, -⟩ := h.slice t ht
  rw [Token.stop, hposition]
  omega

theorem mem (h : Tiling p text ts) :
    ∀ t ∈ ts, t.kind ≠ .exprEnd ∧ t.lexeme ≠ [] ∧ ∀ c ∈ t.lexeme, isBlank c = false := by
  induction h with
  | nil => nofun
  | blank _ _ ih => exact ih
  | token hk _ hne hblank _ ih =>
    intro t ht
    rcases List.mem_cons.1 ht with rfl | ht
    · exact ⟨hk, hne, hblank⟩
    · exact ih t ht

theorem pairwise (h : Tiling p text ts) : ts.Pairwise fun a b => a.stop ≤ b.position := by
  induction h with
  | nil => exact .nil
  | blank _ _ ih => exact ih
  | token _ hposition _ _ hrest ih =>
    refine List.pairwise_cons.2 ⟨fun b hb => ?_, ih⟩
    rw [Token.stop, hposition]
    exact hrest.le_position b hb

theorem pairwise_position (h : Tiling p text ts) : ts.Pairwise fun a b => a.position < b.position := by
  refine h.pairwise.imp_of_mem fun {a b} ha _ hab => ?_
  have := List.length_pos_iff.2 (h.mem a ha).2.1
  rw [Token.stop] at hab
  omega

theorem isBlank_of_not_mem (h : Tiling p text ts) : ∀ (i : Nat) (c : Char), text[i]? = some c →
    (∀ t ∈ ts, ¬ (t.position ≤ (p + i : Nat) ∧ ((p + i : Nat) : Int) < t.stop)) → isBlank c = true := by
  induction h with
  | nil =>
    intro i c hc
    cases hc
  | blank hblank _ ih =>
    intro i c hc hout
    cases i with
    | zero =>
      cases hc
      exact hblank
    | succ i =>
      refine ih i c hc fun t ht => ?_
      have := hout t ht
      rwa [← Nat.add_assoc, Nat.add_right_comm] at this
  | @token p t text ts _ hposition _ _ _ ih =>
    intro i c hc hout
    by_cases hi : i < t.lexeme.length
    · exfalso
      refine hout t List.mem_cons_self ⟨?_, ?_⟩
      · rw [hposition]
        omega
      · rw [Token.stop, hposition]
        omega
    · obtain ⟨j, rfl⟩ : ∃ j, i = t.lexeme.length + j := ⟨i - t.lexeme.length, by omega⟩
      rw [List.getElem?_append_right (Nat.le_add_right _ _), Nat.add_sub_cancel_left] at hc
      refine ih j c hc fun u hu => ?_
      have := hout u (List.mem_cons_of_mem _ hu)
      rwa [← Nat.add_assoc] at this

/-- **The tokens and the gaps between them give the text back.** -/
theorem rebuild (h : Tiling p text ts) : ∃ (gaps : List Text) (last : Text), gaps.length = ts.length ∧
    (∀ gap ∈ gaps, ∀ c ∈ gap, isBlank c = true) ∧ (∀ c ∈ last, isBlank c = true) ∧
    text = (List.zipWith (fun gap t => gap ++ t.lexeme) gaps ts).flatten ++ last := by
  induction h with
  | nil => exact ⟨[], [], rfl, nofun, nofun, rfl⟩
  | @blank p c text ts hc _ ih =>
    obtain ⟨gaps, last, hlength, hgaps, hlast, htext⟩ := ih
    -- the blank goes in front of the first gap, which is the last one if there is no token
    match gaps, ts, hlength with
    | [], [], _ =>
      refine ⟨[], c :: last, rfl, nofun, ?_, by rw [htext]; rfl⟩
      intro d hd
      rcases List.mem_cons.1 hd with rfl | hd
      · exact hc
      · exact hlast d hd
    | gap :: gaps, t :: ts, hlength =>
      refine ⟨(c :: gap) :: gaps, last, hlength, ?_, hlast, by rw [htext]; rfl⟩
      intro gap' hgap' d hd
      rcases List.mem_cons.1 hgap' with rfl | hgap'
      · rcases List.mem_cons.1 hd with rfl | hd
        · exact hc
        · exact hgaps gap List.mem_cons_self d hd
      · exact hgaps gap' (List.mem_cons_of_mem _ hgap') d hd
  | @token p t text ts _ _ _ _ _ ih =>
    obtain ⟨gaps, last, hlength, hgaps, hlast, htext⟩ := ih
    refine ⟨[] :: gaps, last, by rw [List.length_cons, hlength, List.length_cons], ?_, hlast, ?_⟩
    · intro gap hgap
      rcases List.mem_cons.1 hgap with rfl | hgap
      · nofun
      · exact hgaps gap hgap
    · rw [htext, List.zipWith_cons_cons, List.flatten_cons, List.nil_append, List.append_assoc]

end Tiling
end Calculator
