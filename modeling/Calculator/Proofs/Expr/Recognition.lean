import Calculator.Proofs.Expr.Derivation
/-!
# The parser recognizes the grammar

The parser accepts a list of tokens exactly if the grammar derives it, and gives the tree that the grammar gives.

The step from an accepted run to a derivation follows the parser: it reads a primary, and then the operators that the
innermost level takes.  The value so far is always a phrase on a rung from which the next operator can be reached
(`Rung.Reaches`), because the right operand that was just completed left no operator that it could have taken itself.
-/
namespace Calculator

open ParserState

/-! ## Rungs and strengths -/

/-- The rung of the phrases that a level with a least strength reads. -/
def Rung.ofStrength : Nat → Rung
  | 0 | 1 => .sum
  | 2 => .product
  | 3 => .power
  | 4 => .factorial
  | _ => .primary

/-- The rung on which the left operand of an operator stands. -/
def Operation.leftRung : Operation → Rung
  | .unary _ => .factorial
  | .binary .pow => .factorial
  | .binary .mul | .binary .div | .binary .mod => .product
  | .binary .add | .binary .sub => .sum

/-- A phrase on the rung can be the left operand of the operator that follows, if one does. -/
def Rung.Reaches (r : Rung) (rest : List Token) : Prop :=
  ∀ t, rest.head? = some t → ∀ op, t.kind.trailing? = some op → op.leftRung.strength ≤ r.strength

theorem ofStrength_strength (s : Nat) : (Rung.ofStrength s).strength = max 1 (min s 5) := by
  match s with
  | 0 | 1 | 2 | 3 | 4 => rfl
  | s + 5 =>
    show 5 = _
    omega

theorem ofStrength_mono {s s' : Nat} (h : s ≤ s') : (Rung.ofStrength s).strength ≤ (Rung.ofStrength s').strength := by
  rw [ofStrength_strength, ofStrength_strength]
  omega

theorem leftRung_strength_le (op : Operation) : op.leftRung.strength ≤ 4 := by
  cases op with
  | unary op => exact Nat.le_refl 4
  | binary op => cases op <;> decide

theorem reaches_of_four_le {r : Rung} (h : 4 ≤ r.strength) (rest : List Token) : r.Reaches rest :=
  fun _ _ op _ => Nat.le_trans (leftRung_strength_le op) h

/-- An operator that is too weak for the right operand of another can have that other's node on its left. -/
theorem leftRung_strength_le_of_lt {k : TokenKind} {op : BinaryOp} {op' : Operation} (hop' : k.trailing? = some op')
    (h : op'.strength < (Operation.binary op).operandStrength) :
    op'.leftRung.strength ≤ (Rung.ofStrength op.strength).strength := by
  cases k <;> cases hop' <;> cases op <;> first | decide | exact absurd h (by decide)

/-- **Behind a right operand, the next operator can be reached**: it was too weak for the operand. -/
theorem reaches_of_taken?_none {op : BinaryOp} {left : Expr} {outer : List Level} {stop : Int} {rest : List Token}
    (h : taken? (.rightOperand op left :: outer) (upNext stop rest) = none) :
    (Rung.ofStrength op.strength).Reaches rest := by
  intro t ht op' hop'
  cases rest with
  | nil => cases ht
  | cons t rest =>
    cases ht
    exact leftRung_strength_le_of_lt hop' (taken?_eq_none.1 h op' hop')

/-! ## Phrases -/

/-- A phrase on a rung is a phrase on every rung that binds less. -/
theorem Phrase.lift {limit : Nat} {r : Rung} (r' : Rung) {n : Nat} {ts rest : List Token} {e : Expr}
    (h : Phrase limit r n ts e rest) (hr : r'.strength ≤ r.strength) : Phrase limit r' n ts e rest := by
  have factorial : ∀ {r}, Phrase limit r n ts e rest → 4 ≤ r.strength → Phrase limit .factorial n ts e rest := by
    intro r h hr
    cases r with
    | primary => exact .ofPrimary h
    | factorial => exact h
    | power | product | sum => exact absurd hr (by decide)
  have power : ∀ {r}, Phrase limit r n ts e rest → 3 ≤ r.strength → Phrase limit .power n ts e rest := by
    intro r h hr
    cases r with
    | primary | factorial => exact .ofFactorial (factorial h (by decide))
    | power => exact h
    | product | sum => exact absurd hr (by decide)
  have product : ∀ {r}, Phrase limit r n ts e rest → 2 ≤ r.strength → Phrase limit .product n ts e rest := by
    intro r h hr
    cases r with
    | primary | factorial | power => exact .ofPower (power h (by decide))
    | product => exact h
    | sum => exact absurd hr (by decide)
  cases r' with
  | primary => cases r <;> first | exact h | exact absurd hr (by decide)
  | factorial => exact factorial h hr
  | power => exact power h hr
  | product => exact product h hr
  | sum => cases r <;> first | exact h | exact .ofProduct (product h (by decide))

theorem phrase_between {limit n : Nat} {t : Token} {op : BinaryOp} {ts mid rest : List Token} {left right : Expr}
    (hop : t.kind.trailing? = some (.binary op))
    (hleft : Phrase limit (Operation.binary op).leftRung n ts left (t :: mid)) (hn : n < limit)
    (hright : Phrase limit (.ofStrength (Operation.binary op).operandStrength) (n + 1) mid right rest) :
    Phrase limit (.ofStrength op.strength) n ts (.binary op left right) rest := by
  cases hk : t.kind <;> rw [hk] at hop <;> cases hop
  case caret => exact .caret hleft hk hn hright
  case star | slash | percent => exact .times hleft (by rw [hk]; rfl) hn hright
  case plus | minus => exact .plus hleft (by rw [hk]; rfl) hn hright

theorem trailing?_unary {k : TokenKind} {op : UnaryOp} (h : k.trailing? = some (.unary op)) :
    k = .bang ∧ op = .factorial := by
  cases k <;> cases h
  decide

/-- A leading operator, with an operand that ends before what the operator does not take. -/
theorem phrase_leading {limit n : Nat} {t : Token} {op : UnaryOp} {ts rest : List Token} {e : Expr} {stop : Int}
    {outer : List Level} (hop : t.kind.leading? = some op) (hn : n < limit)
    (h : Phrase limit (.ofStrength (Operation.unary op).operandStrength) (n + 1) ts e rest)
    (hnext : taken? (.operand op :: outer) (upNext stop rest) = none) :
    Phrase limit .primary n (t :: ts) (.unary op e) rest := by
  cases hk : t.kind <;> rw [hk] at hop <;> cases hop
  case plus | minus => exact .sign (by rw [hk]; rfl) hn h
  case root =>
    refine .root hk hn h fun next hhead => trailing?_eq_none.1 ?_
    cases rest with
    | nil => cases hhead
    | cons next rest =>
      cases hhead
      refine Option.eq_none_iff_forall_not_mem.2 fun op hop => ?_
      exact Nat.not_lt.2 (trailing?_strength_pos hop) (taken?_eq_none.1 hnext op hop)

/-! ## From a run to a derivation -/

variable {limit : Nat} {tree : Expr}

/-- What is left when something, and at least one token, was read. -/
def Behind (rest ts : List Token) : Prop := rest <:+ ts ∧ rest.length < ts.length

theorem behind_cons {t : Token} {rest ts : List Token} (h : rest <:+ ts) : Behind rest (t :: ts) :=
  ⟨h.trans (List.suffix_cons t ts), Nat.lt_succ_of_le h.length_le⟩

theorem Behind.trans {rest mid ts : List Token} (h : Behind rest mid) (h' : mid <:+ ts) : Behind rest ts :=
  ⟨h.1.trans h', Nat.lt_of_lt_of_le h.2 h'.length_le⟩

theorem group_closed {opening : Token} {outer : List Level} {e : Expr} {stop : Int} {ts : List Token}
    (hts : ∀ t ∈ ts, t.isEnd = false) (hnext : taken? (.group opening :: outer) (upNext stop ts) = none)
    (h : run (some limit) none ⟨.group opening :: outer, .value e⟩ stop ts = .ok tree) :
    ∃ closing rest, ts = closing :: rest ∧ closing.kind = .bracketClose ∧
      run (some limit) none ⟨outer, .value e⟩ closing.stop rest = .ok tree := by
  cases ts with
  | nil => cases run_nil_ok h
  | cons t rest =>
    obtain ⟨-, next, hs, h⟩ := run_cons_ok (hts t List.mem_cons_self) h
    simp only [step] at hs
    rw [stepBehind, show taken? (.group opening :: outer) t = none from hnext] at hs
    simp only at hs
    split at hs
    · cases hs
      exact ⟨t, rest, rfl, ‹_›, h⟩
    · cases hs

/-- Behind an argument, an accepted run goes on with another argument or closes the bracket of the call. -/
theorem argument_closed {name opening : Token} {before : List Expr} {outer : List Level} {e : Expr} {stop : Int}
    {ts : List Token} (hts : ∀ t ∈ ts, t.isEnd = false)
    (hnext : taken? (.argument name opening before :: outer) (upNext stop ts) = none)
    (h : run (some limit) none ⟨.argument name opening before :: outer, .value e⟩ stop ts = .ok tree) :
    ∃ next rest, ts = next :: rest ∧
      ((next.kind = .comma ∧
          run (some limit) none ⟨.argument name opening (e :: before) :: outer, .nothing⟩ next.stop rest = .ok tree) ∨
        (next.kind = .bracketClose ∧
          run (some limit) none ⟨outer, .value (.call name.lexeme (e :: before).reverse (some name.position))⟩ next.stop
            rest = .ok tree)) := by
  cases ts with
  | nil => cases run_nil_ok h
  | cons t rest =>
    obtain ⟨-, next, hs, h⟩ := run_cons_ok (hts t List.mem_cons_self) h
    simp only [step] at hs
    rw [stepBehind, show taken? (.argument name opening before :: outer) t = none from hnext] at hs
    simp only at hs
    split at hs
    · cases hs
      exact ⟨t, rest, rfl, .inl ⟨‹_›, h⟩⟩
    · cases hs
      exact ⟨t, rest, rfl, .inr ⟨‹_›, h⟩⟩
    · cases hs

mutual

/-- **An accepted run first reads a phrase**, as far as the innermost level takes operators. -/
theorem phrase_of_run (levels : List Level) (stop : Int) (ts : List Token) (hts : ∀ t ∈ ts, t.isEnd = false)
    (h : run (some limit) none ⟨levels, .nothing⟩ stop ts = .ok tree) :
    ∃ e rest stop', Phrase limit (.ofStrength (leastStrength levels)) (levels.length + 1) ts e rest ∧ Behind rest ts ∧
      taken? levels (upNext stop' rest) = none ∧
      run (some limit) none ⟨levels, .value e⟩ stop' rest = .ok tree := by
  obtain ⟨e, mid, stop₁, hphrase, hmid, hrun⟩ := primary_of_run levels stop ts hts h
  have hlen := hmid.2
  have hstrength : (Rung.ofStrength (leastStrength levels)).strength ≤ Rung.primary.strength := by
    rw [ofStrength_strength]
    exact Nat.max_le.2 ⟨by decide, Nat.min_le_right _ _⟩
  obtain ⟨e', rest, stop₂, hphrase', hrest, hnext, hrun'⟩ :=
    operators_of_run levels stop₁ mid (fun t ht => hts t (hmid.1.subset ht)) hphrase
      (reaches_of_four_le (by decide) mid) hstrength hrun
  exact ⟨e', rest, stop₂, hphrase', ⟨hrest.trans hmid.1, Nat.lt_of_le_of_lt hrest.length_le hmid.2⟩, hnext, hrun'⟩
termination_by (ts.length, 1)

theorem primary_of_run (levels : List Level) (stop : Int) (ts : List Token) (hts : ∀ t ∈ ts, t.isEnd = false)
    (h : run (some limit) none ⟨levels, .nothing⟩ stop ts = .ok tree) :
    ∃ e rest stop', Phrase limit .primary (levels.length + 1) ts e rest ∧ Behind rest ts ∧
      run (some limit) none ⟨levels, .value e⟩ stop' rest = .ok tree := by
  match ts with
  | [] => cases run_nil_ok h
  | t :: rest =>
    have hrest : ∀ t' ∈ rest, t'.isEnd = false := fun t' ht' => hts t' (List.mem_cons_of_mem t ht')
    obtain ⟨-, next, hs, h⟩ := run_cons_ok (hts t List.mem_cons_self) h
    obtain ⟨hk, x, hx, rfl⟩ | ⟨hk, rfl⟩ | ⟨hk, rfl⟩ | ⟨op, hop, rfl⟩ := startValue_ok hs
    · -- a number
      exact ⟨_, rest, _, .number hk hx, behind_cons List.suffix_rfl, h⟩
    · -- a name
      by_cases ho : (upNext t.stop rest).kind = .bracketOpen
      · match rest with
        | [] => cases ho
        | opening :: rest =>
          have ho' : opening.kind = .bracketOpen := ho
          obtain ⟨hd, -⟩ := run_cons_ok (hrest opening List.mem_cons_self) h
          rw [run_name_bracketOpen hd ho'] at h
          obtain ⟨e, rest', stop', hcall, hrest', hrun⟩ := call_of_run t opening levels opening.stop rest hk ho'
            (fun t' ht' => hrest t' (List.mem_cons_of_mem opening ht')) h
          exact ⟨e, rest', stop', hcall, behind_cons (hrest'.trans (List.suffix_cons opening rest)), hrun⟩
      · rw [run_name ho] at h
        refine ⟨_, rest, _, .constant hk fun next hhead => ?_, behind_cons List.suffix_rfl, h⟩
        match rest with
        | [] => cases hhead
        | _ :: _ => cases hhead; exact ho
    · -- a group
      have hn : levels.length + 1 < limit := within_some.1 (within_of_run h)
      obtain ⟨e, mid, stop₁, hsum, hmid, hnext, hrun⟩ := phrase_of_run (.group t :: levels) t.stop rest hrest h
      obtain ⟨closing, rest', rfl, hc, hrun'⟩ := group_closed (fun t ht => hrest t (hmid.1.subset ht)) hnext hrun
      exact ⟨e, rest', _, .group hk hn hsum hc, behind_cons ((List.suffix_cons closing rest').trans hmid.1), hrun'⟩
    · -- a leading operator
      have hd := within_of_run h
      obtain ⟨e, mid, stop₁, hoperand, hmid, hnext, hrun⟩ := phrase_of_run (.operand op :: levels) t.stop rest hrest h
      rw [run_operand hd hnext] at hrun
      exact ⟨_, mid, stop₁, phrase_leading hop (within_some.1 hd) hoperand hnext, behind_cons hmid.1, hrun⟩
termination_by (ts.length, 0)

/-- Behind a phrase, an accepted run goes on with the operators that the innermost level takes. -/
theorem operators_of_run {r : Rung} {ts : List Token} {e : Expr} (levels : List Level) (stop : Int) (mid : List Token)
    (hmid : ∀ t ∈ mid, t.isEnd = false) (hphrase : Phrase limit r (levels.length + 1) ts e mid)
    (hreach : r.Reaches mid) (hl : (Rung.ofStrength (leastStrength levels)).strength ≤ r.strength)
    (h : run (some limit) none ⟨levels, .value e⟩ stop mid = .ok tree) :
    ∃ e' rest stop', Phrase limit (.ofStrength (leastStrength levels)) (levels.length + 1) ts e' rest ∧ rest <:+ mid ∧
      taken? levels (upNext stop' rest) = none ∧
      run (some limit) none ⟨levels, .value e'⟩ stop' rest = .ok tree := by
  cases htaken : taken? levels (upNext stop mid) with
  | none => exact ⟨e, mid, stop, hphrase.lift _ hl, List.suffix_rfl, htaken, h⟩
  | some op =>
    match mid with
    | [] => cases (taken?_of_no_trailing rfl : taken? levels (.endMark stop) = none).symm.trans htaken
    | t :: rest =>
      have hrest : ∀ t' ∈ rest, t'.isEnd = false := fun t' ht' => hmid t' (List.mem_cons_of_mem t ht')
      obtain ⟨hop, hs⟩ := taken?_eq_some.1 htaken
      obtain ⟨hd, next, hstep, h⟩ := run_cons_ok (hmid t List.mem_cons_self) h
      cases (stepBehind_taken e htaken).symm.trans hstep
      cases op with
      | unary op =>
        obtain ⟨hk, rfl⟩ := trailing?_unary hop
        obtain ⟨e', rest', stop', hphrase', hrest', hnext, hrun⟩ :=
          operators_of_run levels t.stop rest hrest (.bang (hphrase.lift _ (hreach t rfl _ hop)) hk)
            (reaches_of_four_le (by decide) rest) (ofStrength_mono hs) h
        exact ⟨e', rest', stop', hphrase', hrest'.trans (List.suffix_cons t rest), hnext, hrun⟩
      | binary op =>
        have hd' := within_of_run h
        obtain ⟨right, mid', stop₁, hright, hmid', hnext₁, hrun₁⟩ :=
          phrase_of_run (.rightOperand op e :: levels) t.stop rest hrest h
        rw [run_rightOperand hd' hnext₁] at hrun₁
        have hlen := hmid'.2
        obtain ⟨e', rest', stop', hphrase', hrest', hnext, hrun⟩ :=
          operators_of_run levels stop₁ mid' (fun t' ht' => hrest t' (hmid'.1.subset ht'))
            (phrase_between hop (hphrase.lift _ (hreach t rfl _ hop)) (within_some.1 hd') hright)
            (reaches_of_taken?_none hnext₁) (ofStrength_mono hs) hrun₁
        exact ⟨e', rest', stop', hphrase', hrest'.trans (hmid'.1.trans (List.suffix_cons t rest)), hnext, hrun⟩
termination_by (mid.length, 0)

theorem call_of_run (name opening : Token) (levels : List Level) (stop : Int) (ts : List Token)
    (hn : name.kind = .identifier) (ho : opening.kind = .bracketOpen) (hts : ∀ t ∈ ts, t.isEnd = false)
    (h : run (some limit) none ⟨levels, .callOpened name opening⟩ stop ts = .ok tree) :
    ∃ e rest stop', Phrase limit .primary (levels.length + 1) (name :: opening :: ts) e rest ∧ rest <:+ ts ∧
      run (some limit) none ⟨levels, .value e⟩ stop' rest = .ok tree := by
  by_cases hc : (upNext stop ts).kind = .bracketClose
  · match ts with
    | [] => cases hc
    | closing :: rest =>
      have hc' : closing.kind = .bracketClose := hc
      obtain ⟨hd, -⟩ := run_cons_ok (hts closing List.mem_cons_self) h
      simp only [depthAt, hc', if_true] at hd
      rw [run_callOpened_close hd hc'] at h
      exact ⟨_, rest, _, .emptyCall hn ho hc, List.suffix_cons closing rest, h⟩
  · rw [run_callOpened hc] at h
    obtain ⟨es, closing, rest, hargs, hc', hrest, hrun⟩ := arguments_of_run name opening [] levels stop ts hts h
    exact ⟨_, rest, _, .call hn ho hargs hc', hrest.1, hrun⟩
termination_by (ts.length, 3)

/-- Behind the bracket of a call that is not closed at once, an accepted run reads arguments and closes it. -/
theorem arguments_of_run (name opening : Token) (before : List Expr) (levels : List Level) (stop : Int)
    (ts : List Token) (hts : ∀ t ∈ ts, t.isEnd = false)
    (h : run (some limit) none ⟨.argument name opening before :: levels, .nothing⟩ stop ts = .ok tree) :
    ∃ es closing rest, Arguments limit (levels.length + 1) ts es (closing :: rest) ∧ closing.kind = .bracketClose ∧
      Behind rest ts ∧
      run (some limit) none ⟨levels, .value (.call name.lexeme (before.reverse ++ es) (some name.position))⟩
        closing.stop rest = .ok tree := by
  have hn : levels.length + 1 < limit := within_some.1 (within_of_run h)
  obtain ⟨e, mid, stop₁, hsum, hmid, hnext, hrun⟩ :=
    phrase_of_run (.argument name opening before :: levels) stop ts hts h
  have hmid' : ∀ t ∈ mid, t.isEnd = false := fun t ht => hts t (hmid.1.subset ht)
  obtain ⟨next, rest, rfl, ⟨hk, hrun'⟩ | ⟨hk, hrun'⟩⟩ := argument_closed hmid' hnext hrun
  · have hlen : rest.length < ts.length := Nat.lt_of_succ_lt hmid.2
    obtain ⟨es, closing, rest', hargs, hc, hrest', hrun''⟩ :=
      arguments_of_run name opening (e :: before) levels next.stop rest
        (fun t ht => hmid' t (List.mem_cons_of_mem next ht)) hrun'
    refine ⟨e :: es, closing, rest', .more hn hsum hk hargs, hc,
      hrest'.trans ((List.suffix_cons next rest).trans hmid.1), ?_⟩
    rw [List.reverse_cons, List.append_assoc] at hrun''
    exact hrun''
  · rw [List.reverse_cons] at hrun'
    exact ⟨[e], next, rest, .last hn hsum, hk, (behind_cons List.suffix_rfl).trans hmid.1, hrun'⟩
termination_by (ts.length, 2)

end

/-! ## Whole inputs -/

theorem finishBehind_ok {t t' : Token} {e : Expr} : ∀ (value : Expr) (levels : List Level),
    finishBehind t value levels = .ok e → finishBehind t' value levels = .ok e
  | _, [], h => h
  | _, .group _ :: _, h => by cases h
  | _, .argument .. :: _, h => by cases h
  | value, .operand op :: outer, h => finishBehind_ok (.unary op value) outer h
  | value, .rightOperand op left :: outer, h => finishBehind_ok (.binary op left value) outer h

theorem finish_ok {s : ParserState} {t t' : Token} {e : Expr} (h : s.finish t = .ok e) : s.finish t' = .ok e := by
  unfold finish at h ⊢
  split at h
  · cases h
  · exact finishBehind_ok _ _ h
  · cases h
  · exact finishBehind_ok _ _ h

theorem depthAt_of_isEnd {s : ParserState} {t t' : Token} (h : t.isEnd = true) (h' : t'.isEnd = true) :
    s.depthAt t = s.depthAt t' := by
  simp only [depthAt, Token.kind_of_isEnd h, Token.kind_of_isEnd h']

/-- An end mark, with whatever follows it, is as good as the end of the tokens. -/
theorem run_ok_end {cap : Option Nat} {s : ParserState} {stop : Int} {t : Token} {rest : List Token} {e : Expr}
    (he : t.isEnd = true) :
    run cap none s stop (t :: rest) = .ok e ↔ Within cap (s.depthAt t) ∧ s.finish t = .ok e := by
  constructor
  · intro h
    have hd : Within cap (s.depthAt t) := within_of_run h
    rw [run, checkDepth_ok hd, he] at h
    exact ⟨hd, h⟩
  · rintro ⟨hd, h⟩
    rw [run, checkDepth_ok hd, he]
    exact h

theorem run_ok_nil {cap : Option Nat} {s : ParserState} {stop : Int} {e : Expr} :
    run cap none s stop [] = .ok e ↔ Within cap (s.depthAt (.endMark stop)) ∧ s.finish (.endMark stop) = .ok e := by
  constructor
  · exact fun h => ⟨within_of_run h, run_nil_ok h⟩
  · rintro ⟨hd, h⟩
    rw [run, checkDepth_ok hd]
    exact h

/-- **Only the tokens before the first end mark count.** -/
theorem run_ok_iff_beforeEnd {cap : Option Nat} {e : Expr} : ∀ (ts : List Token) (s : ParserState) (stop stop' : Int),
    run cap none s stop ts = .ok e ↔ run cap none s stop' (beforeEnd ts) = .ok e
  | [], s, stop, stop' => by
    rw [beforeEnd, List.takeWhile_nil, run_ok_nil, run_ok_nil,
      depthAt_of_isEnd rfl (rfl : (Token.endMark stop').isEnd = true)]
    exact and_congr_right fun _ => ⟨finish_ok, finish_ok⟩
  | t :: rest, s, stop, stop' => by
    cases he : t.isEnd with
    | true =>
      rw [beforeEnd, List.takeWhile_cons_of_neg (by rw [he]; decide), run_ok_end he, run_ok_nil,
        depthAt_of_isEnd he (rfl : (Token.endMark stop').isEnd = true)]
      exact and_congr_right fun _ => ⟨finish_ok, finish_ok⟩
    | false =>
      rw [beforeEnd, List.takeWhile_cons_of_pos (by rw [he]; rfl)]
      constructor
      · intro h
        obtain ⟨hd, next, hs, h⟩ := run_cons_ok he h
        rw [run_cons hd he hs]
        exact (run_ok_iff_beforeEnd rest next t.stop t.stop).1 h
      · intro h
        obtain ⟨hd, next, hs, h⟩ := run_cons_ok he h
        rw [run_cons hd he hs]
        exact (run_ok_iff_beforeEnd rest next t.stop t.stop).2 h

theorem not_isEnd_of_mem_beforeEnd {t : Token} {ts : List Token} (h : t ∈ beforeEnd ts) : t.isEnd = false := by
  have := List.all_eq_true.1 List.all_takeWhile t h
  simpa using this

theorem run_of_sentence {cap : Option Nat} {limit : Nat} {ts : List Token} {e : Expr} (hcap : Within cap limit)
    (h : Sentence limit ts e) : run cap none .initial 0 ts = .ok e := by
  obtain ⟨hlimit, hphrase⟩ := h
  obtain ⟨stop, hrun⟩ := hphrase.run_eq hcap [] 0 rfl hlimit (Nat.zero_le _) (fun _ ht => by cases ht)
  exact hrun.trans (run_ok_nil.2 ⟨hcap.mono hlimit, rfl⟩)

theorem sentence_of_run {limit : Nat} {ts : List Token} {e : Expr} (hts : ∀ t ∈ ts, t.isEnd = false)
    (h : run (some limit) none .initial 0 ts = .ok e) : Sentence limit ts e := by
  obtain ⟨e', rest, stop, hphrase, hrest, hnext, hrun⟩ := phrase_of_run [] 0 ts hts h
  match rest with
  | [] =>
    cases run_nil_ok hrun
    exact ⟨within_some.1 (within_of_run h), hphrase⟩
  | t :: rest =>
    -- what the whole expression does not take is trailing
    obtain ⟨-, next, hs, -⟩ := run_cons_ok (hts t (hrest.1.subset List.mem_cons_self)) hrun
    simp only [step] at hs
    rw [stepBehind, show taken? [] t = none from hnext] at hs
    cases hs

/-- **The parser and the grammar agree.**  A list of tokens, up to its first end mark, is accepted with a tree exactly
if it is a sentence with that tree, within the same limit; and no list of tokens is a sentence with two trees, whatever
the limits. -/
theorem parse_eq_ok_iff_sentence (ts : List Token) :
    (∀ e, parse (.ofTokens ts) = .ok e ↔ Sentence nestingLimit (beforeEnd ts) e) ∧
      ∀ (us : List Token) (limit limit' : Nat) (e e' : Expr), Sentence limit us e → Sentence limit' us e' → e = e' := by
  constructor
  · intro e
    rw [parse, parseWithin, Source.ofTokens, run_ok_iff_beforeEnd ts .initial 0 0]
    exact ⟨sentence_of_run fun t ht => not_isEnd_of_mem_beforeEnd ht, run_of_sentence (within_some.2 (Nat.le_refl _))⟩
  · intro us limit limit' e e' h h'
    have := (run_of_sentence (within_none _) h).symm.trans (run_of_sentence (within_none _) h')
    exact Except.ok.inj this

end Calculator
