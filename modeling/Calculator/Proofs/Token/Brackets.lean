import Calculator.Proofs.Token.Places
import Calculator.Proofs.Token.Spacing
/-!
# Brackets that are never closed

A closing bracket closes an opening one if the brackets between them are closed among themselves.  Reading a text from
left to right with the places of the open brackets at hand (`openPlaces`) finds those that are never closed, and since
no token but a bracket holds one, reading its tokens with the open ones at hand finds the same places
(`Tiling.openPlaces_eq`).
-/
namespace Calculator

/-- A text in which every bracket is closed. -/
inductive Paired : Text → Prop
  | nil : Paired []
  | other {c : Char} {rest : Text} : c ≠ '(' → c ≠ ')' → Paired rest → Paired (c :: rest)
  | pair {inside rest : Text} : Paired inside → Paired rest → Paired ('(' :: (inside ++ ')' :: rest))

/-- The bracket at the place `i` is closed by the one at the place `j`. -/
def Closes (code : Text) (i j : Nat) : Prop :=
  ∃ before inside behind, code = before ++ '(' :: (inside ++ ')' :: behind) ∧ Paired inside ∧ i = before.length ∧
    j = i + inside.length + 1

/-- The places of the brackets that are open behind a text which starts at a place, the innermost one first, if some
were open before it. -/
def openPlaces (opened : List Nat) (place : Nat) : Text → List Nat
  | [] => opened
  | c :: rest =>
    openPlaces (if c = '(' then place :: opened else if c = ')' then opened.tail else opened) (place + 1) rest

variable {opened : List Nat} {place i : Nat} {c : Char} {t u code : Text}

/-! ## Reading a text -/

theorem openPlaces_open : openPlaces opened place ('(' :: t) = openPlaces (place :: opened) (place + 1) t := rfl

theorem openPlaces_close : openPlaces opened place (')' :: t) = openPlaces opened.tail (place + 1) t := rfl

theorem openPlaces_other (ho : c ≠ '(') (hc : c ≠ ')') :
    openPlaces opened place (c :: t) = openPlaces opened (place + 1) t := by
  rw [openPlaces, if_neg ho, if_neg hc]

theorem openPlaces_append :
    openPlaces opened place (t ++ u) = openPlaces (openPlaces opened place t) (place + t.length) u := by
  induction t generalizing opened place with
  | nil => rfl
  | cons c t ih =>
    rw [List.cons_append, openPlaces, openPlaces, ih, List.length_cons, Nat.add_assoc, Nat.add_comm 1]

/-- **Closed brackets leave no trace.** -/
theorem Paired.openPlaces_eq (h : Paired t) : openPlaces opened place t = opened := by
  induction h generalizing opened place with
  | nil => rfl
  | other ho hc _ ih => rw [openPlaces_other ho hc, ih]
  | pair _ _ ihinside ihrest =>
    rw [openPlaces_open, openPlaces_append, ihinside, openPlaces_close, List.tail_cons, ihrest]

theorem paired_of_forall (h : ∀ c ∈ t, c ≠ '(' ∧ c ≠ ')') : Paired t := by
  induction t with
  | nil => exact .nil
  | cons c t ih =>
    obtain ⟨ho, hc⟩ := h c List.mem_cons_self
    exact .other ho hc (ih fun d hd => h d (List.mem_cons_of_mem c hd))

theorem mem_openPlaces (h : i ∈ openPlaces opened place t) :
    i ∈ opened ∨ ∃ k, i = place + k ∧ t[k]? = some '(' := by
  induction t generalizing opened place with
  | nil => exact .inl h
  | cons c t ih =>
    rcases ih h with hopened | ⟨k, rfl, hk⟩
    · split at hopened
      · next hc =>
        rcases List.mem_cons.1 hopened with rfl | hopened
        · exact .inr ⟨0, rfl, congrArg some hc⟩
        · exact .inl hopened
      · split at hopened
        · exact .inl (List.mem_of_mem_tail hopened)
        · exact .inl hopened
    · exact .inr ⟨k + 1, by rw [Nat.add_assoc, Nat.add_comm 1], hk⟩

/-- **A bracket that is still open at the end is closed nowhere.** -/
theorem not_closes_of_mem_openPlaces (h : i ∈ openPlaces [] 0 code) : code[i]? = some '(' ∧ ∀ j, ¬ Closes code i j := by
  constructor
  · rcases mem_openPlaces h with hopened | ⟨k, rfl, hk⟩
    · cases hopened
    · rwa [Nat.zero_add]
  · rintro j ⟨before, inside, behind, rfl, hinside, rfl, -⟩
    rw [openPlaces_append, openPlaces_open, openPlaces_append, hinside.openPlaces_eq, openPlaces_close,
      List.tail_cons] at h
    -- the pair leaves no trace, so what is open at the end stands before it or behind it
    rcases mem_openPlaces h with hbefore | ⟨k, hk, -⟩
    · rcases mem_openPlaces hbefore with hopened | ⟨k, hk, hchar⟩
      · cases hopened
      · obtain ⟨hlt, -⟩ := List.getElem?_eq_some_iff.1 hchar
        omega
    · omega

/-! ## Reading its tokens -/

/-- The open brackets behind a token. -/
def bracketsBehind (opened : List Token) (t : Token) : List Token :=
  match t.kind with
  | .bracketOpen => t :: opened
  | .bracketClose => opened.tail
  | _ => opened

/-- The brackets in a word: it is one, or it holds none. -/
theorem Word.brackets {kind : TokenKind} {w : Text} (h : Word kind w) :
    (kind = .bracketOpen ∧ w = ['(']) ∨ (kind = .bracketClose ∧ w = [')']) ∨
      (kind ≠ .bracketOpen ∧ kind ≠ .bracketClose ∧ Paired w) := by
  have hplain : kind = .number ∨ kind = .identifier → Paired w := by
    refine fun hkind => paired_of_forall fun c hc => ⟨?_, ?_⟩
    all_goals
      rintro rfl
      exact h.not_mem_marks hkind _ hc (by decide)
  cases h with
  | number => exact .inr (.inr ⟨nofun, nofun, hplain (.inl rfl)⟩)
  | name => exact .inr (.inr ⟨nofun, nofun, hplain (.inr rfl)⟩)
  | symbol hsymbol =>
    unfold TokenKind.ofSymbol? at hsymbol
    split at hsymbol <;> cases hsymbol <;> first
      | exact .inl ⟨rfl, rfl⟩
      | exact .inr (.inl ⟨rfl, rfl⟩)
      | exact .inr (.inr ⟨nofun, nofun, .other (by decide) (by decide) .nil⟩)

theorem ne_bracket_of_isBlank (h : isBlank c = true) : c ≠ '(' ∧ c ≠ ')' := by
  constructor
  all_goals
    rintro rfl
    exact absurd h (by decide)

/-- **The tokens of a text leave the same brackets open as the text.** -/
theorem Tiling.openPlaces_eq {p : Nat} {text : Text} {ts : List Token} (h : Tiling p text ts) :
    (∀ t ∈ ts, Word t.kind t.lexeme) → ∀ (opened : List Token) (places : List Nat),
      opened.map Token.position = places.map Nat.cast →
      (ts.foldl bracketsBehind opened).map Token.position = (openPlaces places p text).map Nat.cast := by
  induction h with
  | nil => exact fun _ _ _ h => h
  | blank hc _ ih =>
    obtain ⟨ho, hclose⟩ := ne_bracket_of_isBlank hc
    intro hwords opened places h
    rw [openPlaces_other ho hclose]
    exact ih hwords opened places h
  | @token p t text ts _ hposition _ _ _ ih =>
    intro hwords opened places h
    have hnext := ih fun u hu => hwords u (List.mem_cons_of_mem t hu)
    rw [List.foldl_cons, openPlaces_append]
    refine hnext _ _ ?_
    rcases (hwords t List.mem_cons_self).brackets with ⟨hk, hw⟩ | ⟨hk, hw⟩ | ⟨ho, hc, hpaired⟩
    · rw [hw, openPlaces_open, openPlaces, bracketsBehind, hk]
      simp only [List.map_cons, hposition, h]
    · rw [hw, openPlaces_close, openPlaces, bracketsBehind, hk]
      simp only [List.map_tail, h]
    · rw [hpaired.openPlaces_eq, ← h, bracketsBehind]
      split
      · exact absurd ‹_› ho
      · exact absurd ‹_› hc
      · rfl

/-- **A bracket token that is still open at the end** stands at an opening bracket that is closed nowhere. -/
theorem unclosed_of_mem {front : List Token} {bracket : Token} (htiling : Tiling 0 code front)
    (hwords : ∀ t ∈ front, Word t.kind t.lexeme) (h : bracket ∈ front.foldl bracketsBehind []) :
    ∃ p : Nat, bracket.position = p ∧ code[p]? = some '(' ∧ ∀ j, ¬ Closes code p j := by
  have hmem := List.mem_map_of_mem (f := Token.position) h
  rw [htiling.openPlaces_eq hwords [] [] rfl, List.mem_map] at hmem
  obtain ⟨p, hp, hposition⟩ := hmem
  exact ⟨p, hposition.symm, not_closes_of_mem_openPlaces hp⟩

end Calculator
