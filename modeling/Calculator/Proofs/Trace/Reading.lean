import Calculator.Proofs.Expr.Culprit
import Calculator.Proofs.Trace.Steps
/-!
# The tokens that the parser fetches

The descent looks at tokens again and again, but it fetches each from its source once, and that is when the token is
logged.  What has been logged is at every moment what the cursor has seen (`Descent.readings_eq_seen`).

How far a descent has come in its source shows when the source is cut: a descent that looks at nothing behind the cut
does not notice it, and one that does ends at the cut (`Descent.cut`).  So what has been seen at the end is known from
what the parser makes of the source and of the source cut short: it is what the library's parser looks at
(`Descent.seen_of_grammar`, `Descent.seen_of_scan`, `Descent.seen_of_ok`).
-/
namespace Calculator

open ParserState

/-! ## What the library's parser looks at -/

section Looked

variable {limit : Option Nat} {failure : Option ScanError} {e : ScanError} {last : Token} {tree : Expr}

/-- What follows an end mark does not matter. -/
theorem run_failure_congr (failure' : Option ScanError) : ∀ (ts : List Token) (s : ParserState) (stop : Int),
    (∃ t ∈ ts, t.isEnd = true) → s.run limit failure stop ts = s.run limit failure' stop ts
  | [], _, _, h => by
    obtain ⟨_, ht, -⟩ := h
    cases ht
  | t :: rest, s, stop, h => by
    rw [run, run]
    cases s.checkDepth limit t with
    | error => rfl
    | ok =>
      cases he : t.isEnd with
      | true => rfl
      | false =>
        have hrest : ∃ u ∈ rest, u.isEnd = true := by
          obtain ⟨u, hu, huend⟩ := h
          rcases List.mem_cons.1 hu with rfl | hu
          · rw [he] at huend
            cases huend
          · exact ⟨u, hu, huend⟩
        cases s.step t with
        | error => rfl
        | ok next => exact run_failure_congr failure' rest next t.stop hrest

/-- A run that succeeds looks at everything up to the end mark. -/
theorem looked_of_run_ok (hlast : last.isEnd = true) : ∀ (front : List Token) (s : ParserState) (stop : Int),
    (∀ t ∈ front, t.isEnd = false) → s.run limit failure stop (front ++ [last]) = .ok tree →
      s.looked limit failure stop (front ++ [last]) = front ++ [last]
  | [], s, stop, _, _ => by
    simp only [List.nil_append, looked, hlast, if_true]
    cases s.checkDepth limit last <;> rfl
  | t :: front, s, stop, hfront, h => by
    have he : t.isEnd = false := hfront t List.mem_cons_self
    obtain ⟨hd, next, hs, hrun⟩ := run_cons_ok he h
    rw [List.cons_append, looked_cons hd he hs,
      looked_of_run_ok hlast front next t.stop (fun u hu => hfront u (List.mem_cons_of_mem t hu)) hrun]

/-- A run that comes to a fault has looked at everything before it, and would have come to any other. -/
theorem looked_of_run_scan : ∀ (ts : List Token) (s : ParserState) (stop : Int), (∀ t ∈ ts, t.Readable) →
    s.run limit (some e) stop ts = .error (.scan e) →
      s.looked limit (some e) stop ts = ts ∧ ∀ fault, s.run limit (some fault) stop ts = .error (.scan fault)
  | [], _, _, _, _ => ⟨rfl, fun _ => rfl⟩
  | t :: rest, s, stop, hread, h => by
    rcases run_cons_error_cases h with hstops | ⟨hd, he, next, hs, hrun⟩
    · rcases hstops.grammar (hread t List.mem_cons_self) with ⟨fault, hfault⟩ | ⟨position, hfault⟩
      · cases hfault
      · cases hfault
    · obtain ⟨hlooked, hother⟩ :=
        looked_of_run_scan rest next t.stop (fun u hu => hread u (List.mem_cons_of_mem t hu)) hrun
      exact ⟨by rw [looked_cons hd he hs, hlooked], fun fault => (run_cons hd he hs).trans (hother fault)⟩

end Looked

namespace Descent

variable {limit : Option Nat} {d : Descent} {t : Token}

/-! ## What is logged -/

/-- **A step logs what it adds to what has been seen.** -/
theorem seen_step (limit : Option Nat) (d : Descent) :
    (d.step limit).cursor.seen = d.cursor.seen ++ d.fetched limit := by
  rcases cursor_step limit d with ⟨hlooks, hcursor⟩ | ⟨hlooks, hcursor⟩ | ⟨hlooks, t, hahead, -, hcursor⟩
  · rw [hcursor, fetched, hlooks, if_neg (by decide), List.append_nil]
  · rw [hcursor, fetched, hlooks, if_pos rfl, Cursor.seen_peek]
  · rw [hcursor, fetched, hlooks, if_pos rfl, Cursor.seen_of_ahead hahead, Cursor.seen_peek]

/-- The tokens that are logged up to a moment. -/
def readings (limit : Option Nat) (source : Source) : Nat → List Token
  | 0 => []
  | k + 1 => readings limit source k ++ (moment limit source k).fetched limit

/-- **What has been logged is what has been seen.** -/
theorem readings_eq_seen (limit : Option Nat) (source : Source) :
    ∀ k, readings limit source k = (moment limit source k).cursor.seen
  | 0 => rfl
  | k + 1 => by
    rw [readings, readings_eq_seen limit source k]
    exact (seen_step limit _).symm

/-! ## Sources cut short -/

section Cut

variable (limit : Option Nat) (p u v : List Token) (f g : Option ScanError)

/-- At a moment the descent has seen only tokens of `p`, and a descent on a source that goes on differently behind `p`
is the same but for what is unread. -/
def Abreast (k : Nat) : Prop :=
  ∃ x, (moment limit ⟨p ++ u, f⟩ k).cursor.seen ++ x = p ∧ (moment limit ⟨p ++ u, f⟩ k).cursor.unread = ⟨x ++ u, f⟩ ∧
    moment limit ⟨p ++ v, g⟩ k = (moment limit ⟨p ++ u, f⟩ k).withUnread ⟨x ++ v, g⟩

/-- At a moment the descent has seen all tokens of `p`, and is about to fetch what follows them. -/
def AtCut (k : Nat) : Prop :=
  (moment limit ⟨p ++ u, f⟩ k).looks limit = true ∧ (moment limit ⟨p ++ u, f⟩ k).cursor.ahead = none ∧
    (moment limit ⟨p ++ u, f⟩ k).cursor.seen = p ∧ (moment limit ⟨p ++ u, f⟩ k).cursor.unread = ⟨u, f⟩

variable {limit p u v f g}

/-- With a token ahead a step keeps what is unread, and what has been seen. -/
theorem cursor_of_ahead (limit : Option Nat) (h : d.cursor.ahead = some t) :
    ∃ (task : Task) (calls : List (Option Level)) (depth : Nat) (cursor : Cursor), cursor.seen = d.cursor.seen ∧
      ∀ unread, (d.withUnread unread).step limit = ⟨task, calls, depth, cursor.withUnread unread⟩ := by
  obtain ⟨task, calls, depth, cursor, hcursor, hstep⟩ := settles_step limit h
  refine ⟨task, calls, depth, cursor, ?_, hstep⟩
  rcases hcursor with rfl | ⟨-, rfl⟩
  · rfl
  · exact Cursor.seen_of_ahead h

theorem withUnread_self {d : Descent} {unread : Source} (h : d.cursor.unread = unread) : d.withUnread unread = d := by
  obtain ⟨task, calls, depth, cursor⟩ := d
  cases h
  rfl

/-- **One step of both descents.** -/
theorem Abreast.step {k : Nat} (h : Abreast limit p u v f g k) (hcut : ¬ AtCut limit p u f k) :
    Abreast limit p u v f g (k + 1) := by
  obtain ⟨x, hseen, hunread, hother⟩ := h
  have hnext : moment limit ⟨p ++ u, f⟩ (k + 1) = (moment limit ⟨p ++ u, f⟩ k).step limit := rfl
  have hnextOther : moment limit ⟨p ++ v, g⟩ (k + 1) = (moment limit ⟨p ++ v, g⟩ k).step limit := rfl
  rw [Abreast, hnext, hnextOther, hother]
  unfold AtCut at hcut
  generalize moment limit ⟨p ++ u, f⟩ k = d at hseen hunread hcut ⊢
  cases hlooks : d.looks limit with
  | false =>
    obtain ⟨task, calls, depth, hstep⟩ := step_of_not_looks hlooks
    have hd : d.step limit = ⟨task, calls, depth, d.cursor⟩ := hstep d.cursor
    have hd' : (d.withUnread ⟨x ++ v, g⟩).step limit = ⟨task, calls, depth, d.cursor.withUnread ⟨x ++ v, g⟩⟩ := hstep _
    rw [hd, hd']
    exact ⟨x, hseen, hunread, rfl⟩
  | true =>
    cases hahead : d.cursor.ahead with
    | some t =>
      obtain ⟨task, calls, depth, cursor, hcursor, hstep⟩ := cursor_of_ahead limit hahead
      have hd := hstep ⟨x ++ u, f⟩
      rw [withUnread_self hunread] at hd
      rw [hd, hstep]
      exact ⟨x, (congrArg (· ++ x) hcursor).trans hseen, rfl, rfl⟩
    | none =>
      cases x with
      | nil =>
        rw [List.append_nil] at hseen
        exact absurd ⟨hlooks, hahead, hseen, hunread⟩ hcut
      | cons y x =>
        have hpeek := Cursor.peek_of_unread hahead hunread
        have hpeekOther := @Cursor.peek_of_unread (d.cursor.withUnread ⟨y :: x ++ v, g⟩) y (x ++ v) g hahead rfl
        rw [step_of_peek hlooks hpeek, step_of_peek (d := d.withUnread ⟨y :: x ++ v, g⟩) hlooks hpeekOther]
        obtain ⟨task, calls, depth, cursor, hcursor, hstep⟩ := cursor_of_ahead
          (d := ⟨d.task, d.calls, d.depth, { d.cursor with ahead := some y, unread := ⟨x ++ u, f⟩ }⟩) limit rfl
        have hfetched : cursor.seen = d.cursor.seen ++ [y] := by
          rw [hcursor, Cursor.seen, Cursor.seen, hahead, Option.toList_none, List.append_nil]
          rfl
        have hd := hstep ⟨x ++ u, f⟩
        have hd' := hstep ⟨x ++ v, g⟩
        refine ⟨x, ?_, ?_, ?_⟩
        · rw [← hseen, List.append_cons, ← hfetched]
          exact congrArg (fun d => d.cursor.seen ++ x) hd
        · exact congrArg (fun d => d.cursor.unread) hd
        · exact hd'.trans (congrArg (·.withUnread ⟨x ++ v, g⟩) hd).symm

theorem abreast_zero : Abreast limit p u v f g 0 := ⟨p, rfl, rfl, rfl⟩

theorem abreast_or_cut : ∀ k, Abreast limit p u v f g k ∨ ∃ j, Abreast limit p u v f g j ∧ AtCut limit p u f j
  | 0 => .inl abreast_zero
  | k + 1 => by
    rcases abreast_or_cut k with h | hcut
    · by_cases hcut : AtCut limit p u f k
      · exact .inr ⟨k, h, hcut⟩
      · exact .inl (h.step hcut)
    · exact .inr hcut

/-- **A source cut short.**  Either nothing behind the cut is looked at, and the result is the same, or the descent
comes to the cut and its result is the fault that it finds there. -/
theorem cut (limit : Option Nat) (p u : List Token) (f : Option ScanError) (fault : ScanError) :
    (∀ k, (moment limit ⟨p ++ u, f⟩ k).cursor.seen <+: p) ∧
        parseWithin limit ⟨p, some fault⟩ = parseWithin limit ⟨p ++ u, f⟩ ∨
      (∃ k, AtCut limit p u f k) ∧ parseWithin limit ⟨p, some fault⟩ = .error (.scan fault) := by
  have hp : (⟨p, some fault⟩ : Source) = ⟨p ++ [], some fault⟩ := by rw [List.append_nil]
  rw [hp]
  by_cases hcut : ∃ k, Abreast limit p u [] f (some fault) k ∧ AtCut limit p u f k
  · obtain ⟨k, ⟨x, hseen, -, hother⟩, hlooks, hahead, hall, hunread⟩ := hcut
    refine .inr ⟨⟨k, hlooks, hahead, hall, hunread⟩, ?_⟩
    obtain rfl : x = [] := List.append_right_eq_self.1 (hall ▸ hseen)
    have hdone : (moment limit ⟨p ++ [], some fault⟩ (k + 1)).task = .done (.error (.scan fault)) := by
      show ((moment limit ⟨p ++ [], some fault⟩ k).step limit).task = _
      rw [hother, List.append_nil, step_of_fault (d := (moment limit ⟨p ++ u, f⟩ k).withUnread ⟨[], some fault⟩) hlooks
        (Cursor.peek_of_fault hahead rfl)]
    exact (result_eq hdone).symm
  · have habreast : ∀ k, Abreast limit p u [] f (some fault) k := fun k => (abreast_or_cut k).resolve_right hcut
    refine .inl ⟨fun k => ?_, ?_⟩
    · obtain ⟨x, hseen, -⟩ := habreast k
      exact ⟨x, hseen⟩
    · obtain ⟨k, hdone⟩ := moment_done limit ⟨p ++ u, f⟩
      obtain ⟨x, -, -, hother⟩ := habreast k
      refine (result_eq (k := k) ?_).symm
      rw [hother]
      exact hdone 0

end Cut

/-! ## What has been seen at the end -/

section End

variable {source : Source} {k : Nat} {result : Except ParseFailure Expr}

theorem seen_mono (limit : Option Nat) (source : Source) (k : Nat) :
    ∀ j, (moment limit source k).cursor.seen <+: (moment limit source (k + j)).cursor.seen
  | 0 => List.prefix_refl _
  | j + 1 => by
    have hstep : (moment limit source (k + (j + 1))).cursor.seen =
      (moment limit source (k + j)).cursor.seen ++ (moment limit source (k + j)).fetched limit := seen_step limit _
    rw [hstep]
    exact (seen_mono limit source k j).trans (List.prefix_append _ _)

theorem moment_eq_of_done (h : (moment limit source k).task = .done result) :
    ∀ j, moment limit source (k + j) = moment limit source k
  | 0 => rfl
  | j + 1 => (step_done (moment_of_done h j)).trans (moment_eq_of_done h j)

theorem looks_of_done {d : Descent} (h : d.task = .done result) : d.looks limit = false := by
  obtain ⟨task, calls, depth, cursor⟩ := d
  cases h
  rfl

/-- A descent that is done has come past the cut that it was at. -/
theorem AtCut.lt {p u : List Token} {f : Option ScanError} {j : Nat} (h : AtCut limit p u f j)
    (hdone : (moment limit ⟨p ++ u, f⟩ k).task = .done result) : j < k := by
  by_contra hle
  obtain ⟨i, rfl⟩ := Nat.exists_eq_add_of_le (Nat.le_of_not_lt hle)
  have hlooks := h.1
  rw [looks_of_done (moment_of_done hdone i)] at hlooks
  cases hlooks

/-- The token behind a cut that a descent was at has been seen. -/
theorem AtCut.seen {p u : List Token} {f : Option ScanError} {j : Nat} (h : AtCut limit p (t :: u) f j)
    (hdone : (moment limit ⟨p ++ t :: u, f⟩ k).task = .done result) :
    p ++ [t] <+: (moment limit ⟨p ++ t :: u, f⟩ k).cursor.seen := by
  obtain ⟨i, rfl⟩ := Nat.exists_eq_add_of_lt (h.lt hdone)
  obtain ⟨hlooks, hahead, hseen, hunread⟩ := h
  have hfetched : (moment limit ⟨p ++ t :: u, f⟩ j).fetched limit = [t] := by
    rw [fetched, hlooks, if_pos rfl, Cursor.fetched, hahead, Cursor.peek_of_unread hahead hunread]
  have hstep : (moment limit ⟨p ++ t :: u, f⟩ (j + 1)).cursor.seen = p ++ [t] :=
    (seen_step limit (moment limit ⟨p ++ t :: u, f⟩ j)).trans (by rw [hseen, hfetched])
  rw [← hstep, Nat.add_right_comm]
  exact seen_mono limit _ (j + 1) i

/-- **Behind a syntax error nothing has been seen.** -/
theorem seen_of_grammar {e : SyntaxError} (h : e.IsLastRead source)
    (hdone : (moment (some nestingLimit) source k).task = .done result) :
    (moment (some nestingLimit) source k).cursor.seen = lookedAt source := by
  obtain ⟨before, behind, htokens, hlooked, hparse, hreached⟩ := h
  obtain ⟨tokens, failure⟩ := source
  obtain rfl : tokens = before ++ e.found :: behind := htokens
  rw [hlooked]
  obtain ⟨fault⟩ : Nonempty ScanError := ⟨⟨.invalidNumber [], 0⟩⟩
  have hresult : parse ⟨before ++ e.found :: behind, failure⟩ = .error (.grammar e) := hparse failure behind
  refine List.IsPrefix.eq_of_length_le ?_ ?_
  · have hsource : (⟨before ++ e.found :: behind, failure⟩ : Source) = ⟨before ++ [e.found] ++ behind, failure⟩ := by
      simp
    rw [hsource] at hdone ⊢
    rcases cut (some nestingLimit) (before ++ [e.found]) behind failure fault with ⟨hseen, -⟩ | ⟨-, hscan⟩
    · exact hseen k
    · cases hscan.symm.trans (hparse (some fault) [])
  · rcases cut (some nestingLimit) before (e.found :: behind) failure fault with ⟨-, hsame⟩ | ⟨⟨j, hcut⟩, -⟩
    · cases (hreached fault).symm.trans (hsame.trans hresult)
    · exact (hcut.seen hdone).length_le

/-- **In front of a fault everything has been seen.** -/
theorem seen_of_scan {tokens : List Token} {e : ScanError}
    (h : ∀ fault, parse ⟨tokens, some fault⟩ = .error (.scan fault))
    (hdone : (moment (some nestingLimit) ⟨tokens, some e⟩ k).task = .done result) :
    (moment (some nestingLimit) ⟨tokens, some e⟩ k).cursor.seen = tokens := by
  obtain ⟨fault, hne⟩ : ∃ fault : ScanError, fault ≠ e := by
    refine ⟨⟨e.fault, e.position + 1⟩, fun heq => ?_⟩
    have := congrArg ScanError.position heq
    dsimp only at this
    omega
  have htokens : (⟨tokens, some e⟩ : Source) = ⟨tokens ++ [], some e⟩ := by rw [List.append_nil]
  rw [htokens] at hdone ⊢
  rcases cut (some nestingLimit) tokens [] (some e) fault with ⟨-, hsame⟩ | ⟨⟨j, hcut⟩, -⟩
  · rw [← htokens] at hsame
    cases (h fault).symm.trans (hsame.trans (h e))
    exact absurd rfl hne
  · -- the step at the cut is the last one
    obtain ⟨i, rfl⟩ := Nat.exists_eq_add_of_lt (hcut.lt hdone)
    obtain ⟨hlooks, hahead, hseen, hunread⟩ := hcut
    have hstep := step_of_fault hlooks (Cursor.peek_of_fault hahead hunread)
    have hlast : (moment (some nestingLimit) ⟨tokens ++ [], some e⟩ (j + 1)).task = .done (.error (.scan e)) :=
      congrArg Descent.task hstep
    rw [Nat.add_right_comm, moment_eq_of_done hlast i]
    exact (congrArg (fun d => d.cursor.seen) hstep).trans hseen

/-- **A whole expression has been seen up to its end mark**, and consumed up to there. -/
theorem seen_of_ok {front : List Token} {last : Token} {tree : Expr} (hlast : last.isEnd = true)
    (hfront : ∀ t ∈ front, t.isEnd = false) (h : parse ⟨front ++ [last], none⟩ = .ok tree)
    (hdone : (moment (some nestingLimit) ⟨front ++ [last], none⟩ k).task = .done result) :
    (moment (some nestingLimit) ⟨front ++ [last], none⟩ k).cursor.seen = front ++ [last] := by
  obtain ⟨fault⟩ : Nonempty ScanError := ⟨⟨.invalidNumber [], 0⟩⟩
  refine List.IsPrefix.eq_of_length_le ?_ ?_
  · have hsource : (⟨front ++ [last], none⟩ : Source) = ⟨front ++ [last] ++ [], none⟩ := by rw [List.append_nil]
    rcases cut (some nestingLimit) (front ++ [last]) [] none fault with ⟨hseen, -⟩ | ⟨-, hscan⟩
    · rw [hsource]
      exact hseen k
    · have hsame : parse ⟨front ++ [last], some fault⟩ = parse ⟨front ++ [last], none⟩ :=
        run_failure_congr none _ _ _ ⟨last, List.mem_append_right _ (List.mem_singleton_self _), hlast⟩
      cases hscan.symm.trans (hsame.trans h)
  · rcases cut (some nestingLimit) front [last] none fault with ⟨-, hsame⟩ | ⟨⟨j, hcut⟩, -⟩
    · exact absurd (hsame.trans h) (run_failure_ne_ok front .initial 0 hfront)
    · exact (hcut.seen hdone).length_le

/-- End marks are not consumed. -/
theorem consumed_step (limit : Option Nat) {d : Descent} (h : ∀ t ∈ d.cursor.consumed, t.isEnd = false) :
    ∀ t ∈ (d.step limit).cursor.consumed, t.isEnd = false := by
  rcases cursor_step limit d with ⟨-, hcursor⟩ | ⟨-, hcursor⟩ | ⟨-, t, -, he, hcursor⟩
  · rw [hcursor]
    exact h
  · rw [hcursor, Cursor.consumed_peek]
    exact h
  · intro u hu
    rw [hcursor, Cursor.consume, Cursor.consumed_peek] at hu
    rcases List.mem_cons.1 hu with rfl | hu
    · exact he
    · exact h u hu

theorem isEnd_of_mem_consumed (limit : Option Nat) (source : Source) :
    ∀ k, ∀ t ∈ (moment limit source k).cursor.consumed, t.isEnd = false
  | 0 => nofun
  | k + 1 => consumed_step limit (isEnd_of_mem_consumed limit source k)

end End

/-! ## The last moment -/

/-- Enough steps for the descent. -/
def steps (source : Source) : Nat := (start source).distance

theorem distance_add_le (limit : Option Nat) (source : Source) : ∀ k,
    (moment limit source k).distance + k ≤ steps source ∨ ∃ result, (moment limit source k).task = .done result
  | 0 => .inl (Nat.le_refl _)
  | k + 1 => by
    rcases distance_add_le limit source k with h | ⟨result, hdone⟩
    · rcases weight_pos_or_done (moment limit source k) with hw | ⟨result, hdone⟩
      · have hlt : (moment limit source (k + 1)).distance < (moment limit source k).distance :=
          ((moment_consistent limit source k).1.step hw).distance_lt
        exact .inl (by omega)
      · exact .inr ⟨result, moment_of_done hdone 1⟩
    · exact .inr ⟨result, moment_of_done hdone 1⟩

theorem task_steps (limit : Option Nat) (source : Source) :
    (moment limit source (steps source)).task = .done (parseWithin limit source) := by
  obtain ⟨result, hdone⟩ : ∃ result, (moment limit source (steps source)).task = .done result := by
    rcases distance_add_le limit source (steps source) with h | hdone
    · refine (weight_pos_or_done _).resolve_left fun hw => ?_
      have : 0 < (moment limit source (steps source)).distance := Nat.add_pos_right _ hw
      omega
    · exact hdone
  rw [← result_eq hdone]
  exact hdone

end Descent

/-! ## Texts -/

variable {code : Text}

theorem parse_of_fault {e : ScanError} (h : parse (scan code) = .error (.scan e)) :
    (scan code).failure = some e ∧ lookedAt (scan code) = (scan code).tokens ∧
      ∀ fault, parse ⟨(scan code).tokens, some fault⟩ = .error (.scan fault) := by
  obtain ⟨_, hfailure, hf⟩ | ⟨_, _, _, hf, -⟩ := run_failure _ _ _ (scan_readable code) h
  · cases hf
    rw [parse, parseWithin, hfailure] at h
    rw [lookedAt, hfailure]
    exact ⟨rfl, looked_of_run_scan _ _ _ (scan_readable code) h⟩
  · cases hf

theorem lookedAt_of_parse {front : List Token} {last : Token} {tree : Expr} (hlast : last.isEnd = true)
    (hfront : ∀ t ∈ front, t.isEnd = false) (h : parse ⟨front ++ [last], none⟩ = .ok tree) :
    lookedAt ⟨front ++ [last], none⟩ = front ++ [last] :=
  looked_of_run_ok hlast front .initial 0 hfront h

namespace Descent

/-- **What the descent has logged** in the end is what the library's parser looks at. -/
theorem readings_steps (code : Text) :
    readings (some nestingLimit) (scan code) (steps (scan code)) = lookedAt (scan code) := by
  rw [readings_eq_seen]
  have hdone := task_steps (some nestingLimit) (scan code)
  cases hparse : parse (scan code) with
  | error e =>
    cases e with
    | scan e =>
      obtain ⟨hfailure, hlooked, hother⟩ := parse_of_fault hparse
      rw [hlooked]
      generalize scan code = source at hdone hfailure hother
      obtain ⟨tokens, failure⟩ := source
      cases hfailure
      exact seen_of_scan hother hdone
    | grammar e => exact seen_of_grammar (isLastRead_of_parse hparse).1 hdone
    | unreadable lexeme => exact absurd hparse (parse_scan_ne_unreadable code lexeme)
  | ok tree =>
    obtain ⟨front, hscan, htiling, -⟩ := accepted_of_parse hparse
    rw [hscan] at hparse hdone ⊢
    rw [lookedAt_of_parse rfl htiling.isEnd_eq_false hparse]
    exact seen_of_ok rfl htiling.isEnd_eq_false hparse hdone

/-- **A whole expression has been consumed** up to its end mark. -/
theorem consumed_steps {front : List Token} {last : Token} {tree : Expr} (hlast : last.isEnd = true)
    (hfront : ∀ t ∈ front, t.isEnd = false) (h : parse ⟨front ++ [last], none⟩ = .ok tree) :
    (moment (some nestingLimit) ⟨front ++ [last], none⟩ (steps ⟨front ++ [last], none⟩)).cursor.consumed.reverse =
      front := by
  have hseen := seen_of_ok hlast hfront h (task_steps _ _)
  have hend := isEnd_of_mem_consumed (some nestingLimit) ⟨front ++ [last], none⟩ (steps ⟨front ++ [last], none⟩)
  generalize moment (some nestingLimit) ⟨front ++ [last], none⟩ (steps ⟨front ++ [last], none⟩) = d at hseen hend ⊢
  rw [Cursor.seen] at hseen
  cases hahead : d.cursor.ahead with
  | some t =>
    rw [hahead, Option.toList_some] at hseen
    exact (List.append_inj' hseen rfl).1
  | none =>
    -- then the end mark would have been consumed
    rw [hahead, Option.toList_none, List.append_nil] at hseen
    have hmem : last ∈ d.cursor.consumed := by
      rw [← List.mem_reverse, hseen]
      exact List.mem_append_right _ (List.mem_singleton_self _)
    rw [hend last hmem] at hlast
    cases hlast

end Descent
end Calculator
