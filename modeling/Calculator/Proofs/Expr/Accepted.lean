import Calculator.Proofs.Expr.Recognition
import Calculator.Proofs.Token.Places
/-!
# Texts that are expressions

A text that the parser accepts has no fault: the parser needs an end mark, and there is none before a fault.  So its
tokens tile it, and they are a sentence of the grammar (`accepted_of_parse`).
-/
namespace Calculator

open ParserState

theorem Tiling.isEnd_eq_false {p : Nat} {text : Text} {ts : List Token} (h : Tiling p text ts) :
    ∀ t ∈ ts, t.isEnd = false :=
  fun t ht => Token.isEnd_eq_false (h.mem t ht).1

theorem isEnd_eq_false_of_failure {code : Text} {e : ScanError} (h : (scan code).failure = some e) :
    ∀ t ∈ (scan code).tokens, t.isEnd = false := by
  obtain ⟨-, k, htiling⟩ := fault_of_scan h
  exact htiling.isEnd_eq_false

/-- Without an end mark a faulty source is not accepted. -/
theorem run_failure_ne_ok {cap : Option Nat} {e : ScanError} {tree : Expr} :
    ∀ (ts : List Token) (s : ParserState) (stop : Int), (∀ t ∈ ts, t.isEnd = false) →
      run cap (some e) s stop ts ≠ .ok tree
  | [], _, _, _ => nofun
  | t :: rest, s, stop, hts => by
    intro h
    obtain ⟨-, next, -, hrun⟩ := run_cons_ok (hts t List.mem_cons_self) h
    exact run_failure_ne_ok rest next t.stop (fun u hu => hts u (List.mem_cons_of_mem t hu)) hrun

theorem failure_of_parse {code : Text} {tree : Expr} (h : parse (scan code) = .ok tree) :
    (scan code).failure = none := by
  cases hfailure : (scan code).failure with
  | none => rfl
  | some e =>
    rw [parse, parseWithin, hfailure] at h
    exact absurd h (run_failure_ne_ok _ _ _ (isEnd_eq_false_of_failure hfailure))

theorem beforeEnd_append_endMark {front : List Token} {p : Int} (h : ∀ t ∈ front, t.isEnd = false) :
    beforeEnd (front ++ [.endMark p]) = front := by
  rw [beforeEnd, List.takeWhile_append_of_pos fun t ht => by rw [h t ht]; rfl]
  exact List.append_nil front

/-- A sentence in front of an end mark is accepted. -/
theorem parse_of_sentence {front : List Token} {tree : Expr} (p : Int) (hfront : ∀ t ∈ front, t.isEnd = false)
    (h : Sentence nestingLimit front tree) : parse ⟨front ++ [.endMark p], none⟩ = .ok tree := by
  have hrun : run (some nestingLimit) none .initial 0 front = .ok tree := run_of_sentence (within_some.2 (Nat.le_refl _)) h
  rw [← @beforeEnd_append_endMark front p hfront] at hrun
  exact (run_ok_iff_beforeEnd _ .initial 0 0).2 hrun

/-- **A text that is accepted** is tiled by its tokens, and they are a sentence. -/
theorem accepted_of_parse {code : Text} {tree : Expr} (h : parse (scan code) = .ok tree) :
    ∃ front, scan code = ⟨front ++ [.endMark code.length], none⟩ ∧ Tiling 0 code front ∧
      Sentence nestingLimit front tree := by
  obtain ⟨front, hscan, htiling⟩ := tiling_of_scan (failure_of_parse h)
  refine ⟨front, hscan, htiling, sentence_of_run htiling.isEnd_eq_false ?_⟩
  rw [parse, parseWithin, hscan] at h
  have hrun := (run_ok_iff_beforeEnd _ .initial 0 0).1 h
  rwa [beforeEnd_append_endMark htiling.isEnd_eq_false] at hrun

end Calculator
