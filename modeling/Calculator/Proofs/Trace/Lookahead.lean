import Calculator.Proofs.Expr.Recognition
import Calculator.Proofs.Trace.Steps
/-!
# One item ahead

A cursor keeps the consumed tokens, perhaps an item ahead and what is unread.  All of this says no more than two
things: how many tokens have been consumed, and whether the scan error at the end of the source has been reported.  They
fix what is left of the source (`Source.left`), and a cursor either has drawn the next item from it and has that ahead,
or has not (`StandsIn`).  Every move keeps this (`StandsIn.move`), so it holds behind all moves (`standsIn_after`), and
what a move reads is the item that comes next in the source.
-/
namespace Calculator

/-! ## Items of a source -/

/-- The end mark that is supplied behind some tokens. -/
def endBehind (ts : List Token) : Token := .endMark (ts.getLast?.elim 0 Token.stop)

namespace Source

/-- What a source gives, one after the other. -/
def items (s : Source) : List (Except ScanError Token) := s.tokens.map .ok ++ s.failure.toList.map .error

/-- What is left behind the first tokens of a source, and nothing once its error has been reported. -/
def left (s : Source) (consumed : Nat) (reported : Bool) : Source :=
  if reported then ⟨[], none⟩ else ⟨s.tokens.drop consumed, s.failure⟩

/-- The next item, or the mark that is supplied for it, and what is left behind it. -/
def draw (s : Source) (supplied : Token) : Except ScanError Token × Source :=
  match s with
  | ⟨t :: ts, failure⟩ => (.ok t, ⟨ts, failure⟩)
  | ⟨[], some e⟩ => (.error e, ⟨[], none⟩)
  | ⟨[], none⟩ => (.ok supplied, ⟨[], none⟩)

variable {s unread : Source} {t supplied : Token} {n : Nat} {reported : Bool}

theorem draw_fst (s : Source) (supplied : Token) : (s.draw supplied).1 = s.items[0]?.getD (.ok supplied) := by
  obtain ⟨_ | ⟨t, ts⟩, _ | e⟩ := s <;> rfl

theorem items_left (s : Source) (h : n ≤ s.tokens.length) : (s.left n false).items = s.items.drop n := by
  rw [left, if_neg Bool.false_ne_true, items, items, List.drop_append_of_le_length (by rwa [List.length_map]),
    List.map_drop]

theorem items_draw (s : Source) (supplied : Token) : (s.draw supplied).2.items = s.items.drop 1 := by
  obtain ⟨_ | ⟨t, ts⟩, _ | e⟩ := s <;> rfl

/-- Behind the reported error only supplied marks are drawn. -/
theorem draw_reported (s : Source) (n : Nat) : (s.left n true).draw supplied = (.ok supplied, ⟨[], none⟩) := rfl

/-- **What can be drawn**: the next token of the source, its error at the end, or a mark that is supplied. -/
theorem draw_cases (s : Source) (n : Nat) (reported : Bool) (supplied : Token) :
    (∃ t, reported = false ∧ s.tokens.drop n = t :: s.tokens.drop (n + 1) ∧
      (s.left n reported).draw supplied = (.ok t, s.left (n + 1) false)) ∨
    (∃ e, s.tokens.length ≤ n ∧ (s.left n reported).draw supplied = (.error e, ⟨[], none⟩)) ∨
    (s.left n reported).draw supplied = (.ok supplied, ⟨[], none⟩) := by
  cases reported with
  | true => exact .inr (.inr rfl)
  | false =>
    rw [left, left, if_neg Bool.false_ne_true, if_neg Bool.false_ne_true]
    cases hdrop : s.tokens.drop n with
    | nil =>
      cases s.failure with
      | none => exact .inr (.inr rfl)
      | some e => exact .inr (.inl ⟨e, List.drop_eq_nil_iff.1 hdrop, rfl⟩)
    | cons t ts =>
      have hts : s.tokens.drop (n + 1) = ts := by rw [← List.drop_drop, hdrop, List.drop_one, List.tail_cons]
      rw [hts]
      exact .inl ⟨t, rfl, rfl, rfl⟩

theorem of_draw_error {e : ScanError} (h : (s.left n reported).draw supplied = (.error e, unread)) :
    s.tokens.length ≤ n ∧ unread = ⟨[], none⟩ := by
  rcases draw_cases s n reported supplied with ⟨t, -, -, hdraw⟩ | ⟨e, hlength, hdraw⟩ | hdraw <;>
    rw [hdraw] at h <;> cases h
  exact ⟨hlength, rfl⟩

theorem of_draw_ok (h : (s.left n reported).draw supplied = (.ok t, unread)) (hne : t ≠ supplied) :
    reported = false ∧ s.tokens.drop n = t :: s.tokens.drop (n + 1) ∧ unread = s.left (n + 1) false := by
  rcases draw_cases s n reported supplied with ⟨u, hreported, hdrop, hdraw⟩ | ⟨e, -, hdraw⟩ | hdraw <;>
    rw [hdraw] at h <;> cases h
  · exact ⟨hreported, hdrop, rfl⟩
  · exact absurd rfl hne

end Source

/-! ## Runs of moves -/

namespace Cursor

variable {c : Cursor} {s : Source} {t : Token} {reported : Bool}

/-- The cursor behind some moves. -/
def after (c : Cursor) (ms : List Move) : Cursor := ms.foldl (fun c m => (c.move m).2) c

/-- What some moves read. -/
def reads (c : Cursor) (ms : List Move) : List (Except ScanError Token) := (c.moves ms).map Prod.fst

theorem moves_append (m : Move) : ∀ (ms : List Move) (c : Cursor),
    c.moves (ms ++ [m]) = c.moves ms ++ [(c.after ms).move m]
  | [], _ => rfl
  | m' :: ms, c => congrArg (c.move m' :: ·) (moves_append m ms (c.move m').2)

/-! ### Single moves -/

theorem missingEnd_eq_endBehind (c : Cursor) : c.missingEnd = endBehind c.consumed.reverse := by
  obtain ⟨consumed, ahead, unread⟩ := c
  cases consumed with
  | nil => rfl
  | cons last rest => rw [endBehind, List.getLast?_reverse]; rfl

theorem isEnd_missingEnd (c : Cursor) : c.missingEnd.isEnd = true := by
  rw [missingEnd_eq_endBehind]; rfl

/-- Without an item ahead, the next one is drawn from what is unread. -/
theorem peek_of_none (h : c.ahead = none) :
    c.peek = ((c.unread.draw c.missingEnd).1,
      ⟨c.consumed, (c.unread.draw c.missingEnd).1.toOption, (c.unread.draw c.missingEnd).2⟩) := by
  obtain ⟨consumed, ahead, ⟨_ | ⟨t, ts⟩, _ | e⟩⟩ := c <;> cases h <;> rfl

theorem peek_of_some (h : c.ahead = some t) : c.peek = (.ok t, c) := by
  simp only [peek, h]

/-- Both moves read the same. -/
theorem move_fst (c : Cursor) (m : Move) : (c.move m).1 = c.peek.1 := by
  cases m with
  | peek => rfl
  | advance =>
    rw [move, advance]
    rcases c.peek with ⟨e | t, after⟩ <;> rfl

theorem advance_of_error {e : ScanError} {after : Cursor} (h : c.peek = (.error e, after)) :
    c.advance = (.error e, after) := by
  rw [advance, h]

theorem advance_of_ok {after : Cursor} (h : c.peek = (.ok t, after)) :
    c.advance = (.ok t, if t.isEnd then after else after.consume t) := by
  rw [advance, h]; rfl

/-- With an end mark ahead the cursor does not move. -/
theorem move_of_end (h : c.ahead = some t) (he : t.isEnd = true) (m : Move) : c.move m = (.ok t, c) := by
  have hpeek := peek_of_some h
  cases m with
  | peek => exact hpeek
  | advance => rw [move, advance_of_ok hpeek, if_pos he]

theorem ahead_of_move_end (m : Move) (h : (c.move m).1 = .ok t) (he : t.isEnd = true) :
    (c.move m).2.ahead = some t := by
  rw [move_fst] at h
  rcases hpeek : c.peek with ⟨result, after⟩
  rw [hpeek] at h
  cases h
  cases m with
  | peek => rw [move, hpeek]; exact ahead_of_peek hpeek
  | advance => rw [move, advance_of_ok hpeek, if_pos he]; exact ahead_of_peek hpeek

/-! ### Where a cursor stands -/

/-- A cursor in a source, whose error may have been reported: the next item is drawn from what is left behind the
consumed tokens, or will be. -/
structure StandsIn (s : Source) (reported : Bool) (c : Cursor) : Prop where
  front : c.consumed.reverse <+: beforeEnd s.tokens
  whole : reported = true → c.consumed.length = s.tokens.length
  next : c.ahead = none ∧ c.unread = s.left c.consumed.length reported ∨
    ∃ t, c.ahead = some t ∧ (s.left c.consumed.length reported).draw c.missingEnd = (.ok t, c.unread)

theorem standsIn_ofSource (s : Source) : StandsIn s false (.ofSource s) :=
  ⟨List.nil_prefix, fun h => (Bool.false_ne_true h).elim, .inl ⟨rfl, rfl⟩⟩

namespace StandsIn

theorem front_tokens (h : StandsIn s reported c) : c.consumed.reverse <+: s.tokens :=
  h.front.trans (List.takeWhile_prefix _)

theorem length_le (h : StandsIn s reported c) : c.consumed.length ≤ s.tokens.length := by
  rw [← List.length_reverse]
  exact h.front_tokens.length_le

/-- **What a move reads** is drawn from what is left. -/
theorem move_fst (h : StandsIn s reported c) (m : Move) :
    (c.move m).1 = ((s.left c.consumed.length reported).draw c.missingEnd).1 := by
  rw [Cursor.move_fst]
  rcases h.next with ⟨hahead, hunread⟩ | ⟨t, hahead, hdraw⟩
  · rw [peek_of_none hahead, hunread]
  · rw [peek_of_some hahead, hdraw]

theorem peek (h : StandsIn s reported c) : StandsIn s (reported || !c.peek.1.isOk) c.peek.2 := by
  rcases h.next with ⟨hahead, hunread⟩ | ⟨t, hahead, hdraw⟩
  · rw [peek_of_none hahead, hunread]
    rcases hdraw : (s.left c.consumed.length reported).draw c.missingEnd with ⟨e | t, unread⟩
    · -- the error is reported now, and nothing is left
      obtain ⟨hlength, rfl⟩ := Source.of_draw_error hdraw
      rw [show (reported || !(Except.error e : Except ScanError Token).isOk) = true from Bool.or_true _]
      exact ⟨h.front, fun _ => Nat.le_antisymm h.length_le hlength, .inl ⟨rfl, rfl⟩⟩
    · rw [show (reported || !(Except.ok t : Except ScanError Token).isOk) = reported from Bool.or_false _]
      exact ⟨h.front, h.whole, .inr ⟨t, rfl, hdraw⟩⟩
  · rw [peek_of_some hahead, show (reported || !(Except.ok t : Except ScanError Token).isOk) = reported from
      Bool.or_false _]
    exact h

/-- **A consumed token** is the next one of the source. -/
theorem consume (h : StandsIn s reported c) (hahead : c.ahead = some t) (he : t.isEnd = false) :
    StandsIn s reported (c.consume t) := by
  obtain ⟨u, hu, hdraw⟩ := h.next.resolve_left fun hnone => by rw [hahead] at hnone; cases hnone.1
  obtain rfl := Option.some.inj (hahead.symm.trans hu)
  have hne : t ≠ c.missingEnd := by
    rintro rfl
    rw [isEnd_missingEnd] at he
    cases he
  obtain ⟨rfl, hdrop, hunread⟩ := Source.of_draw_ok hdraw hne
  refine ⟨?_, fun hreported => (Bool.false_ne_true hreported).elim, .inl ⟨rfl, hunread⟩⟩
  obtain ⟨rest, hrest⟩ := h.front_tokens
  obtain rfl : t :: s.tokens.drop (c.consumed.length + 1) = rest := by
    rw [← hdrop, ← hrest, ← List.length_reverse, List.drop_left]
  have hall : ∀ u ∈ c.consumed.reverse, (!u.isEnd) = true := fun u hu => by
    rw [not_isEnd_of_mem_beforeEnd (h.front.subset hu)]
    rfl
  rw [beforeEnd, ← hrest, List.takeWhile_append_of_pos hall, List.takeWhile_cons_of_pos (by rw [he]; rfl)]
  exact ⟨_, by rw [Cursor.consume, List.reverse_cons, List.append_assoc]; rfl⟩

/-- **One move.** -/
theorem move (h : StandsIn s reported c) (m : Move) : StandsIn s (reported || !(c.move m).1.isOk) (c.move m).2 := by
  rw [Cursor.move_fst]
  have hpeek := h.peek
  cases m with
  | peek => exact hpeek
  | advance =>
    rw [Cursor.move]
    rcases hresult : c.peek with ⟨e | t, after⟩
    · rw [hresult] at hpeek
      rw [advance_of_error hresult]
      exact hpeek
    · rw [hresult] at hpeek
      rw [advance_of_ok hresult]
      cases he : t.isEnd with
      | true => exact hpeek
      | false => exact hpeek.consume (ahead_of_peek hresult) he

/-- **Any moves.** -/
theorem after : ∀ (ms : List Move) {reported : Bool} {c : Cursor}, StandsIn s reported c →
    StandsIn s (reported || (c.reads ms).any fun item => !item.isOk) (c.after ms)
  | [], _, _, h => by
    rw [reads, moves, List.map_nil, List.any_nil, Bool.or_false]
    exact h
  | m :: ms, _, _, h => by
    have := after ms (h.move m)
    rwa [Bool.or_assoc] at this

end StandsIn

theorem standsIn_after (s : Source) (ms : List Move) :
    StandsIn s (((ofSource s).reads ms).any fun item => !item.isOk) ((ofSource s).after ms) := by
  have := (standsIn_ofSource s).after ms
  rwa [Bool.false_or] at this

/-! ### What moves read -/

/-- **The next item**, as long as the error has not been reported. -/
theorem StandsIn.read (h : StandsIn s false c) (m : Move) :
    (c.move m).1 = s.items[c.consumed.length]?.getD (.ok (endBehind c.consumed.reverse)) := by
  rw [h.move_fst, Source.draw_fst, Source.items_left s h.length_le, List.getElem?_drop, Nat.add_zero,
    missingEnd_eq_endBehind]

theorem StandsIn.read_reported (h : StandsIn s true c) (m : Move) :
    (c.move m).1 = .ok (endBehind c.consumed.reverse) := by
  rw [h.move_fst, Source.draw_reported, missingEnd_eq_endBehind]

/-- **No more than one item beyond the consumed tokens** has been read. -/
theorem StandsIn.unread (h : StandsIn s reported c) :
    ∃ gone, s.items = gone ++ c.unread.items ∧ gone.length ≤ c.consumed.length + 1 := by
  have hlength : s.items.length = s.tokens.length + s.failure.toList.length := by
    rw [Source.items, List.length_append, List.length_map, List.length_map]
  have hone : s.failure.toList.length ≤ 1 := by cases s.failure <;> simp
  have hitems : ∀ k, s.items = s.items.take k ++ s.items.drop k := fun k => (List.take_append_drop k _).symm
  cases reported with
  | true =>
    -- then nothing is left
    have hunread : c.unread = ⟨[], none⟩ := by
      rcases h.next with ⟨-, hunread⟩ | ⟨t, -, hdraw⟩
      · exact hunread
      · exact (congrArg Prod.snd hdraw).symm
    have hwhole := h.whole rfl
    refine ⟨s.items, ?_, by omega⟩
    rw [hunread]
    exact (List.append_nil _).symm
  | false =>
    rcases h.next with ⟨-, hunread⟩ | ⟨t, -, hdraw⟩
    · refine ⟨s.items.take c.consumed.length, ?_, ?_⟩
      · rw [hunread, Source.items_left s h.length_le]
        exact hitems _
      · rw [List.length_take]
        omega
    · have hunread : c.unread.items = s.items.drop (c.consumed.length + 1) := by
        rw [← List.drop_drop, ← Source.items_left s h.length_le, ← Source.items_draw, hdraw]
      refine ⟨s.items.take (c.consumed.length + 1), ?_, ?_⟩
      · rw [hunread]
        exact hitems _
      · rw [List.length_take]
        omega

/-- **What has been looked at stays** until it is consumed. -/
theorem move_of_peeks (m : Move) : ∀ (n : Nat) (c : Cursor), c.peek.1 = .ok t →
    ((c.after (List.replicate n .peek)).move m).1 = .ok t
  | 0, c, h => (move_fst c m).trans h
  | n + 1, c, h => by
    have hpeek : c.peek = (.ok t, c.peek.2) := Prod.ext h rfl
    have hnext : c.peek.2.peek.1 = .ok t := by rw [peek_of_some (ahead_of_peek hpeek)]
    exact move_of_peeks m n c.peek.2 hnext

/-- **An end mark stays for good.** -/
theorem move_of_read_end (he : t.isEnd = true) (m : Move) : ∀ (ms : List Move) (c : Cursor),
    .ok t ∈ c.reads ms → ((c.after ms).move m).1 = .ok t
  | [], _, h => by cases h
  | m' :: ms, c, h => by
    rcases List.mem_cons.1 h with hread | hlater
    · have hahead := ahead_of_move_end m' hread.symm he
      have hstay : ∀ ms', ((c.move m').2.after ms').ahead = some t := by
        intro ms'
        induction ms' with
        | nil => exact hahead
        | cons m'' ms' ih =>
          have hmove := move_of_end hahead he m''
          rw [after, List.foldl_cons, hmove]
          exact ih
      exact congrArg Prod.fst (move_of_end (hstay ms) he m)
    · exact move_of_read_end he m ms (c.move m').2 hlater

theorem advance_consumed (c : Cursor) :
    c.advance.2.consumed = match c.advance.1 with
      | .ok t => if t.isEnd then c.consumed else t :: c.consumed
      | .error _ => c.consumed := by
  have hconsumed := consumed_peek c
  rcases hpeek : c.peek with ⟨e | t, after⟩
  · rw [hpeek] at hconsumed
    rw [advance_of_error hpeek]
    exact hconsumed
  · rw [hpeek] at hconsumed
    rw [advance_of_ok hpeek]
    dsimp only
    cases he : t.isEnd with
    | true => rw [if_pos rfl, if_pos rfl]; exact hconsumed
    | false => exact congrArg (t :: ·) hconsumed

/-! ## The cursor as a list and an index -/

/-- What a cursor does behind some moves on a source. -/
structure OneAhead (s : Source) (ms : List Move) (c : Cursor) : Prop where
  /-- One more move comes behind the moves so far. -/
  moves_eq (m : Move) : (ofSource s).moves (ms ++ [m]) = (ofSource s).moves ms ++ [c.move m]
  /-- Only tokens before the first end mark are consumed, and in order. -/
  front : c.consumed.reverse <+: beforeEnd s.tokens
  /-- A move reads the item just behind the consumed tokens, and a mark behind the last of them if there is none. -/
  read (m : Move) : (∀ e, .error e ∉ (ofSource s).reads ms) →
    (c.move m).1 = s.items[c.consumed.length]?.getD (.ok (endBehind c.consumed.reverse))
  /-- However often one looks, the same token is there, also for the one who consumes it. -/
  looked (t : Token) (n : Nat) (m : Move) : c.peek.1 = .ok t → ((c.after (List.replicate n .peek)).move m).1 = .ok t
  /-- No more than one item beyond the consumed tokens has been taken from the source. -/
  unread : ∃ gone, s.items = gone ++ c.unread.items ∧ gone.length ≤ c.consumed.length + 1
  /-- Looking does not consume. -/
  kept : c.peek.2.consumed = c.consumed
  /-- A token that is read for good is consumed, unless it is an end mark. -/
  consumed : c.advance.2.consumed = match c.advance.1 with
    | .ok t => if t.isEnd then c.consumed else t :: c.consumed
    | .error _ => c.consumed
  /-- An end mark that has been read is read ever after. -/
  sticky (t : Token) (m : Move) : .ok t ∈ (ofSource s).reads ms → t.isEnd = true → (c.move m).1 = .ok t
  /-- A source that has no end mark gives one behind its last token. -/
  supplied (m : Move) : s.failure = none → c.consumed.reverse = s.tokens → (c.move m).1 = .ok (endBehind s.tokens)
  /-- A scan error that has been reported leaves the mark behind the last consumed token. -/
  reported (e : ScanError) (m : Move) : .error e ∈ (ofSource s).reads ms →
    (c.move m).1 = .ok (endBehind c.consumed.reverse)

theorem oneAhead_after (s : Source) (ms : List Move) : OneAhead s ms ((ofSource s).after ms) := by
  have hstands := standsIn_after s ms
  have hreported : ∀ e, .error e ∈ (ofSource s).reads ms →
      ((ofSource s).reads ms).any (fun item => !item.isOk) = true :=
    fun e he => List.any_eq_true.2 ⟨_, he, rfl⟩
  have hunreported : (∀ e, .error e ∉ (ofSource s).reads ms) →
      ((ofSource s).reads ms).any (fun item => !item.isOk) = false := by
    refine fun hnone => List.any_eq_false.2 fun item hitem => ?_
    cases item with
    | error e => exact absurd hitem (hnone e)
    | ok t => exact Bool.false_ne_true
  refine
    { moves_eq := fun m => moves_append m ms _
      front := hstands.front
      read := fun m hnone => ?_
      looked := fun t n m h => move_of_peeks m n _ h
      unread := hstands.unread
      kept := consumed_peek _
      consumed := advance_consumed _
      sticky := fun t m h he => move_of_read_end he m ms _ h
      supplied := fun m hfailure hall => ?_
      reported := fun e m he => ?_ }
  · rw [hunreported hnone] at hstands
    exact hstands.read m
  · cases hr : ((ofSource s).reads ms).any fun item => !item.isOk with
    | true =>
      rw [hr] at hstands
      rw [hstands.read_reported, hall]
    | false =>
      rw [hr] at hstands
      have hnone : s.items[((ofSource s).after ms).consumed.length]? = none := by
        rw [← List.length_reverse, hall, Source.items, hfailure]
        exact List.getElem?_eq_none (by simp)
      rw [hstands.read, hnone, hall, Option.getD_none]
  · rw [hreported e he] at hstands
    exact hstands.read_reported m

end Cursor

/-! ## Parsing without an end mark -/

/-- **A missing end mark is supplied** where the run looks for it. -/
theorem ParserState.run_endMark (limit : Option Nat) (failure : Option ScanError) (behind : List Token) :
    ∀ (ts : List Token) (s : ParserState) (stop : Int), (∀ t ∈ ts, t.isEnd = false) →
      s.run limit none stop ts =
        s.run limit failure stop (ts ++ .endMark (ts.getLast?.elim stop Token.stop) :: behind)
  | [], _, _, _ => rfl
  | t :: rest, s, stop, h => by
    have hlast : (t :: rest).getLast?.elim stop Token.stop = rest.getLast?.elim t.stop Token.stop := by
      rw [List.getLast?_cons]
      cases rest.getLast? <;> rfl
    rw [hlast, List.cons_append, run, run, h t List.mem_cons_self]
    cases s.checkDepth limit t with
    | error => rfl
    | ok =>
      cases s.step t with
      | error => rfl
      | ok next => exact run_endMark limit failure behind rest next t.stop fun u hu => h u (List.mem_cons_of_mem t hu)

/-- **A cursor is a list and an index with one item of lookahead**, behind any moves on any source.  So tokens without
an end mark are parsed as they are with one at the end of the last token, whatever follows it. -/
theorem lookahead_faithful (s : Source) :
    (∀ ms : List Cursor.Move, Cursor.OneAhead s ms ((Cursor.ofSource s).after ms)) ∧
    ((∀ t ∈ s.tokens, t.isEnd = false) → s.failure = none → ∀ (behind : List Token) (failure : Option ScanError),
      parse s = parse ⟨s.tokens ++ endBehind s.tokens :: behind, failure⟩) := by
  refine ⟨Cursor.oneAhead_after s, fun hend hfailure behind failure => ?_⟩
  rw [parse, parse, parseWithin, parseWithin, hfailure]
  exact ParserState.run_endMark _ failure behind s.tokens .initial 0 hend

/-- Behind a name a scan error is reported once, and then the mark stands just behind the name. -/
example :
    let x : Token := ⟨.identifier, ['x'], 3⟩
    let e : ScanError := ⟨.unexpectedCharacter '$', 4⟩
    (Cursor.ofSource ⟨[x], some e⟩).reads [.peek, .advance, .peek, .peek, .advance] =
      [.ok x, .ok x, .error e, .ok (.endMark 4), .ok (.endMark 4)] := by
  rfl

end Calculator
