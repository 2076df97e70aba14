import Calculator.Failure
/-!
# Texts on one line

Quoted texts and numerals have no line break, whatever is quoted, and case folding neither makes nor takes one away.
So a message is on one line, if the name of a function is (`oneLine_message`).
-/
namespace Calculator

/-- A text without a line break. -/
def OneLine (t : Text) : Prop := '\n' ∉ t

instance (t : Text) : Decidable (OneLine t) := inferInstanceAs (Decidable ('\n' ∉ t))

theorem oneLine_append {s t : Text} : OneLine (s ++ t) ↔ OneLine s ∧ OneLine t := by
  rw [OneLine, List.mem_append, not_or]
  exact Iff.rfl

theorem OneLine.append {s t : Text} (hs : OneLine s) (ht : OneLine t) : OneLine (s ++ t) := oneLine_append.2 ⟨hs, ht⟩

theorem OneLine.cons {c : Char} {t : Text} (hc : c ≠ '\n') (ht : OneLine t) : OneLine (c :: t) :=
  fun h => (List.mem_cons.1 h).elim (fun h => hc h.symm) ht

/-! ## Numerals and quoted texts -/

theorem oneLine_toDigits {b : Nat} (hb : 1 < b) (n : Nat) : OneLine (Nat.toDigits b n) := by
  induction n using Nat.strongRecOn with
  | ind n ih =>
    have hdigit : ∀ k, OneLine [Nat.digitChar k] := fun k => .cons (Nat.digitChar_ne '\n' rfl) List.not_mem_nil
    rw [Nat.toDigits_eq_if hb]
    split
    · exact hdigit n
    · next hn => exact (ih _ (Nat.div_lt_self (by omega) hb)).append (hdigit _)

theorem oneLine_numeral (n : Nat) : OneLine (numeral n) := oneLine_toDigits (by decide) n

theorem oneLine_signedNumeral (i : Int) : OneLine (signedNumeral i) := by
  unfold signedNumeral
  split
  · exact .cons (by decide) (oneLine_numeral _)
  · exact oneLine_numeral _

theorem OneLine.zeroPadded {t : Text} (h : OneLine t) (width : Nat) : OneLine (zeroPadded width t) :=
  OneLine.append (fun hmem => absurd (List.eq_of_mem_replicate hmem) (by decide)) h

theorem oneLine_numbered (c : Char) : OneLine (numbered c) := by
  have hcode : ∀ width, OneLine (zeroPadded width (Nat.toDigits 16 c.toNat)) :=
    (oneLine_toDigits (by decide) c.toNat).zeroPadded
  unfold numbered
  split
  · exact .cons (by decide) (.cons (by decide) (hcode 2))
  · split
    · exact .cons (by decide) (.cons (by decide) (hcode 4))
    · exact .cons (by decide) (.cons (by decide) (hcode 8))

theorem oneLine_quotedChar {quote : Char} (hquote : quote ≠ '\n') (c : Char) : OneLine (quotedChar quote c) := by
  unfold quotedChar
  split
  · next hc =>
    refine .cons (by decide) (.cons ?_ List.not_mem_nil)
    rintro rfl
    rcases Bool.or_eq_true_iff.1 hc with hc | hc
    · exact absurd hc (by decide)
    · exact hquote (of_decide_eq_true hc).symm
  · split
    · exact .cons (by decide) (.cons (by decide) List.not_mem_nil)
    · next hne =>
      split
      · exact .cons (by decide) (.cons (by decide) List.not_mem_nil)
      · split
        · exact .cons (by decide) (.cons (by decide) List.not_mem_nil)
        · split
          · exact .cons hne List.not_mem_nil
          · exact oneLine_numbered c

/-- **A quoted text is on one line**, whatever is quoted. -/
theorem oneLine_quoted (t : Text) : OneLine (quoted t) := by
  have hquote : quoteFor t ≠ '\n' := by
    unfold quoteFor
    split <;> decide
  refine .append (.cons hquote ?_) (.cons hquote List.not_mem_nil)
  intro h
  obtain ⟨c, -, hc⟩ := List.mem_flatMap.1 h
  exact oneLine_quotedChar hquote c hc

/-! ## Case folding -/

theorem eq_of_ofNat_eq_newline {n : Nat} (h : Char.ofNat n = '\n') : n = 10 := by
  by_cases hn : n.isValidChar
  · rw [Char.ofNat, dif_pos hn] at h
    exact congrArg Char.toNat h
  · rw [Char.ofNat, dif_neg hn] at h
    exact absurd h (by decide)

/-- No run leads down to a line break. -/
theorem foldShift_ne {n : Nat} : ∀ {runs : List FoldRun}, (∀ run ∈ runs, 10 < run.first + run.shift) →
    foldShift n runs = 0 ∨ 10 < n + foldShift n runs
  | [], _ => .inl rfl
  | run :: rest, h => by
    have hrun := h run List.mem_cons_self
    unfold foldShift
    split
    · exact .inl rfl
    · split
      · split
        · exact .inr (by omega)
        · exact .inl rfl
      · exact foldShift_ne fun run hrun => h run (List.mem_cons_of_mem _ hrun)

/-- **Only a line break folds to a line break.** -/
theorem newline_mem_foldChar {c : Char} : '\n' ∈ foldChar c ↔ c = '\n' := by
  constructor
  · intro h
    unfold foldChar at h
    split at h
    · next codes hcodes =>
      have hexpansions : ∀ expansion ∈ foldExpansions, 10 ∉ expansion.2 := by decide +kernel
      obtain ⟨before, after, hlist, -⟩ := List.lookup_eq_some_iff.1 hcodes
      have hmem : (c.toNat, codes) ∈ foldExpansions := by
        rw [hlist]
        exact List.mem_append_right _ List.mem_cons_self
      obtain ⟨code, hcode, hnewline⟩ := List.mem_map.1 h
      rw [eq_of_ofNat_eq_newline hnewline] at hcode
      exact absurd hcode (hexpansions _ hmem)
    · have hcode := eq_of_ofNat_eq_newline (List.mem_singleton.1 h).symm
      have hruns : ∀ run ∈ foldRuns, 10 < run.first + run.shift := by decide +kernel
      rcases foldShift_ne (n := c.toNat) hruns with hshift | hshift
      · rw [hshift] at hcode
        have hc : c.toNat = 10 := by omega
        rw [← Char.ofNat_toNat c, hc]
      · omega
  · rintro rfl
    decide

theorem oneLine_caseFold {t : Text} : OneLine (caseFold t) ↔ OneLine t := by
  unfold OneLine caseFold
  rw [List.mem_flatMap]
  simp only [newline_mem_foldChar]
  simp

/-! ## Messages -/

theorem ScanFault.oneLine_message (fault : ScanFault) : OneLine fault.message := by
  cases fault with
  | unexpectedCharacter => exact .append (by decide +kernel) (oneLine_quoted _)
  | invalidNumber => exact .append (by decide +kernel) (oneLine_quoted _)

theorem SyntaxError.oneLine_message (e : SyntaxError) : OneLine e.message := by
  obtain ⟨fault, position, found⟩ := e
  have hquoted := oneLine_quoted found.lexeme
  cases fault with
  | tooDeep limit => exact .append (.append (by decide +kernel) (oneLine_numeral limit)) (by decide +kernel)
  | unexpectedEnd | unclosed =>
    simp only [message]
    decide +kernel
  | valueExpected => exact .append (by decide +kernel) hquoted
  | closingExpected inCall => cases inCall <;> exact .append (by decide +kernel) hquoted
  | trailing => exact .append (.append (by decide +kernel) hquoted) (by decide +kernel)

theorem Arity.oneLine_text (a : Arity) : OneLine a.text := by
  unfold Arity.text
  split
  · exact .append (by decide +kernel) (oneLine_signedNumeral _)
  · split
    · exact oneLine_signedNumeral _
    · exact .append (.append (oneLine_signedNumeral _) (by decide +kernel)) (oneLine_signedNumeral _)

/-- **A message is on one line**, unless a function has a name that is not. -/
theorem oneLine_message {f : Failure}
    (h : ∀ name position function arity given, f = .evaluation (.arityMismatch name position function arity given) →
      OneLine function) : OneLine f.message := by
  cases f with
  | parsing e =>
    cases e with
    | scan e => exact e.fault.oneLine_message
    | grammar e => exact e.oneLine_message
    | unreadable lexeme => exact .append (by decide +kernel) (oneLine_quoted lexeme)
  | evaluation e =>
    cases e with
    | unknownConstant name => exact .append (by decide +kernel) (oneLine_quoted name)
    | unknownFunction name => exact .append (by decide +kernel) (oneLine_quoted name)
    | arityMismatch name position function arity given =>
      have hfunction : OneLine function := h name position function arity given rfl
      exact .append (.append (.append (.append (.append hfunction (by decide +kernel)) arity.oneLine_text)
        (by decide +kernel)) (oneLine_numeral given)) (by decide +kernel)
    | tooDeep => decide +kernel

end Calculator
