import Calculator.Proofs.Expr.Descent
/-!
# The nesting limit is transparent

The descent with a limit and the descent without one make the same steps, except where a call is opened and as many are
active as the limit allows (`step_some`).  So as long as the descent without a limit has no more calls active than that,
they are at the same moments (`moment_some`), and at the first moment where it would open one more, the descent with a
limit looks at one more token and stops.
-/
namespace Calculator
namespace Descent

/-- A call is about to be opened, and the limit does not allow it. -/
def AtLimit (n : Nat) (d : Descent) : Prop := (∃ purpose, d.task = .call purpose) ∧ n ≤ d.depth

/-- **Below the limit, a step does not depend on it.** -/
theorem step_some {n : Nat} {d : Descent} (h : ¬ AtLimit n d) : d.step (some n) = d.step none := by
  obtain ⟨task, calls, depth, c⟩ := d
  cases task with
  | call purpose =>
    have hn : ¬ n ≤ depth := fun hn => h ⟨⟨purpose, rfl⟩, hn⟩
    simp [step, Option.filter, hn]
  | _ => rfl

theorem step_some_atLimit {n : Nat} {d : Descent} (h : AtLimit n d) :
    d.step (some n) = d.peeking fun t d => d.fail (atToken (.tooDeep n) t) := by
  obtain ⟨⟨purpose, htask⟩, hn⟩ := h
  simp [step, htask, Option.filter, hn]

theorem step_none_call {d : Descent} (h : ∃ purpose, d.task = .call purpose) :
    (d.step none).calls.length = d.calls.length + 1 := by
  obtain ⟨purpose, htask⟩ := h
  simp [step, htask, Option.filter]

/-- **Two descents in step**: as long as the one without a limit has few enough calls active, the one with the limit is
at the same moment. -/
theorem moment_some {n : Nat} {source : Source} :
    ∀ k, (∀ j, j ≤ k → (moment none source j).calls.length ≤ n) → moment (some n) source k = moment none source k
  | 0, _ => rfl
  | k + 1, h => by
    have ih : moment (some n) source k = moment none source k := moment_some k fun j hj => h j (Nat.le_succ_of_le hj)
    have hbelow : ¬ AtLimit n (moment none source k) := by
      rintro ⟨hcall, hn⟩
      have hdepth := (moment_consistent none source k).1.depth_eq
      have hsucc : (moment none source (k + 1)).calls.length ≤ n := h (k + 1) (Nat.le_refl _)
      have hopen : (moment none source (k + 1)).calls.length = (moment none source k).calls.length + 1 :=
        step_none_call hcall
      omega
    show (moment (some n) source k).step (some n) = (moment none source k).step none
    rw [ih, step_some hbelow]

theorem exists_last_within {n : Nat} {source : Source} (m : Nat) (hm : n < (moment none source m).calls.length) :
    ∃ k, (∀ j, j ≤ k → (moment none source j).calls.length ≤ n) ∧ n < (moment none source (k + 1)).calls.length := by
  cases m with
  | zero => cases hm
  | succ m =>
    by_cases h : ∃ j, j ≤ m ∧ n < (moment none source j).calls.length
    · obtain ⟨j, hj, hlt⟩ := h
      exact exists_last_within j hlt
    · exact ⟨m, fun j hj => Nat.not_lt.1 fun hlt => h ⟨j, hj, hlt⟩, hm⟩
termination_by m

/-- **The moment of the first call too many** is one of both descents, and the call is about to be opened there. -/
theorem atLimit_of_last_within {n : Nat} {source : Source} {k : Nat}
    (hwithin : ∀ j, j ≤ k → (moment none source j).calls.length ≤ n)
    (hnext : n < (moment none source (k + 1)).calls.length) : AtLimit n (moment none source k) := by
  refine Classical.byContradiction fun hbelow => ?_
  have hk : moment (some n) source k = moment none source k := moment_some k hwithin
  have hsame : moment (some n) source (k + 1) = moment none source (k + 1) := by
    show (moment (some n) source k).step (some n) = (moment none source k).step none
    rw [hk, step_some hbelow]
  have hlimited : (moment (some n) source (k + 1)).calls.length ≤ n := within_some.1 (moment_consistent _ _ _).1.within
  rw [hsame] at hlimited
  exact absurd hnext (Nat.not_lt.2 hlimited)

/-- What a descent ends with that must not open a call: an error about the next token, or a scan error there. -/
def overflow (n : Nat) (d : Descent) : ParseFailure :=
  match d.cursor.peek with
  | (.ok t, _) => atToken (.tooDeep n) t
  | (.error e, _) => .scan e

theorem step_some_overflow {n : Nat} {d : Descent} (h : AtLimit n d) :
    (d.step (some n)).task = .done (.error (d.overflow n)) := by
  rw [step_some_atLimit h]
  rcases hpeek : d.cursor.peek with ⟨e | t, after⟩ <;> simp only [peeking, overflow, hpeek, fail]

/-- **The nesting limit is transparent.**  Parsing a source with a limit or without one is a descent that ends with
the result of the parser.  With a limit, at every moment the counter is the number of active calls and does not exceed
the limit, and it is back at zero when the descent ends with a tree.  If the descent without a limit never has more
calls active than the limit allows, the two results are the same.  Otherwise, let `k` be the last moment before it first
has: the two descents are the same up to there, the one without a limit opens the call that is one too many, and the one
with the limit ends at once, with an error about the token that is read next or with the scan error found there. -/
theorem nesting_limit_transparent (n : Nat) (source : Source) :
    (∀ limit, ∃ k, ∀ j, (moment limit source (k + j)).task = .done (parseWithin limit source)) ∧
    (∀ k, (moment (some n) source k).depth = (moment (some n) source k).calls.length ∧
      (moment (some n) source k).depth ≤ n) ∧
    (∀ k e, (moment (some n) source k).task = .done (.ok e) → (moment (some n) source k).depth = 0) ∧
    ((∀ k, (moment none source k).calls.length ≤ n) → parseWithin (some n) source = parseWithin none source) ∧
    ((∃ m, n < (moment none source m).calls.length) →
      ∃ k, (∀ j, j ≤ k → (moment none source j).calls.length ≤ n ∧ moment (some n) source j = moment none source j) ∧
        (moment none source (k + 1)).calls.length = n + 1 ∧
        (moment (some n) source (k + 1)).task = .done (.error ((moment none source k).overflow n)) ∧
        parseWithin (some n) source = .error ((moment none source k).overflow n)) := by
  have hdepth (k : Nat) : (moment (some n) source k).depth = (moment (some n) source k).calls.length :=
    (moment_consistent _ _ k).1.depth_eq
  refine ⟨fun limit => moment_done limit source, fun k => ⟨hdepth k, ?_⟩, fun k e hdone => ?_, fun hfew => ?_, ?_⟩
  · rw [hdepth k]
    exact within_some.1 (moment_consistent _ _ k).1.within
  · have hshaped := (moment_consistent (some n) source k).1.shaped
    simp only [Shaped, hdone] at hshaped
    rw [hdepth k, hshaped]
    rfl
  · obtain ⟨k, hdone⟩ := moment_done none source
    have hlimited : (moment (some n) source k).task = .done (parseWithin none source) := by
      rw [moment_some k fun j _ => hfew j]
      exact hdone 0
    exact (result_eq hlimited).symm
  · rintro ⟨m, hm⟩
    obtain ⟨k, hwithin, hnext⟩ := exists_last_within m hm
    have hat := atLimit_of_last_within hwithin hnext
    have hsame : ∀ j, j ≤ k → moment (some n) source j = moment none source j :=
      fun j hj => moment_some j fun i hi => hwithin i (Nat.le_trans hi hj)
    have hopen : (moment none source (k + 1)).calls.length = (moment none source k).calls.length + 1 :=
      step_none_call hat.1
    have hstop : (moment (some n) source (k + 1)).task = .done (.error ((moment none source k).overflow n)) := by
      show ((moment (some n) source k).step (some n)).task = _
      rw [hsame k (Nat.le_refl k)]
      exact step_some_overflow hat
    have hk := hwithin k (Nat.le_refl k)
    exact ⟨k, fun j hj => ⟨hwithin j hj, hsame j hj⟩, by omega, hstop, (result_eq hstop).symm⟩

end Descent
end Calculator
