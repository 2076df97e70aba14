import Calculator.Answer
import Calculator.Proofs.Function.Growth
import Mathlib.Data.List.Nodup
/-!
# Registering functions is conservative

A registry that grows keeps the function of every name that has one.  Under such a registry the walk through a tree
does the same at every node, up to a call whose name had no function and has one now (`evalWithin_conserved`).  Where
the walk came to such a call there was no answer yet, so no answer is ever lost, and of the failures only that of an
unknown function can give way to something else.
-/
namespace Calculator

/-- Every name that has a function keeps it. -/
def Registry.Extends (r larger : Registry) : Prop := ∀ name f, r.find? name = some f → larger.find? name = some f

/-- What a larger registry makes of an outcome: it keeps it, unless that is about an unknown function that it knows. -/
inductive Conserved (r larger : Registry) {α : Type} : Except EvalError α → Except EvalError α → Prop
  | same (x : Except EvalError α) : Conserved r larger x x
  | known {name : Text} {position : Option Int} {f : Function} {x : Except EvalError α} :
      r.find? name = none → larger.find? name = some f → Conserved r larger (.error (.unknownFunction name position)) x

variable {r larger : Registry}

theorem Conserved.elim {α : Type} {x x' : Except EvalError α} (h : Conserved r larger x x') :
    x' = x ∨ ∃ name position f, x = .error (.unknownFunction name position) ∧ r.find? name = none ∧
      larger.find? name = some f := by
  cases h with
  | same x => exact .inl rfl
  | known hnone hsome => exact .inr ⟨_, _, _, rfl, hnone, hsome⟩

/-! ## Trees -/

theorem resolve_conserved (h : r.Extends larger) (name : Text) (position : Option Int) (given : Nat) :
    Conserved r larger (r.resolve name position given) (larger.resolve name position given) := by
  unfold Registry.resolve
  cases hfind : r.find? name with
  | some f =>
    rw [h name f hfind]
    exact .same _
  | none =>
    cases hlarger : larger.find? name with
    | none => exact .same _
    | some f => exact .known hfind hlarger

mutual

/-- **The walk through a tree** does the same, unless it comes to an unknown function that the larger registry knows. -/
theorem evalWithin_conserved [Platform] (h : r.Extends larger) : ∀ (e : Expr) (budget : Nat),
    Conserved r larger (evalWithin r budget e) (evalWithin larger budget e)
  | .literal value, _ => .same _
  | .constant name position, _ => .same _
  | .unary op operand, budget => by
    rw [evalWithin, evalWithin]
    by_cases hbudget : budget = 0
    · rw [if_pos hbudget, if_pos hbudget]
      exact .same _
    · rw [if_neg hbudget, if_neg hbudget]
      obtain hx | ⟨_, _, _, hx, hnone, hsome⟩ := (evalWithin_conserved h operand (budget - 1)).elim <;> rw [hx]
      · exact .same _
      · exact .known hnone hsome
  | .binary op left right, budget => by
    rw [evalWithin, evalWithin]
    by_cases hbudget : budget = 0
    · rw [if_pos hbudget, if_pos hbudget]
      exact .same _
    · rw [if_neg hbudget, if_neg hbudget]
      obtain hx | ⟨_, _, _, hx, hnone, hsome⟩ := (evalWithin_conserved h left (budget - 1)).elim <;> rw [hx]
      · obtain hy | ⟨_, _, _, hy, hnone, hsome⟩ := (evalWithin_conserved h right (budget - 1)).elim <;> rw [hy]
        · exact .same _
        · -- without a left value the right one does not matter
          cases evalWithin r (budget - 1) left with
          | error e => exact .same _
          | ok x => exact .known hnone hsome
      · exact .known hnone hsome
  | .call name arguments position, budget => by
    rw [evalWithin, evalWithin]
    obtain hf | ⟨_, _, _, hf, hnone, hsome⟩ := (resolve_conserved h name position arguments.length).elim <;> rw [hf]
    · obtain hvalues | ⟨_, _, _, hvalues, hnone, hsome⟩ := (evalAllWithin_conserved h arguments budget).elim <;>
        rw [hvalues]
      · exact .same _
      · cases r.resolve name position arguments.length with
        | error e => exact .same _
        | ok f => exact .known hnone hsome
    · exact .known hnone hsome

theorem evalAllWithin_conserved [Platform] (h : r.Extends larger) : ∀ (es : List Expr) (budget : Nat),
    Conserved r larger (evalAllWithin r budget es) (evalAllWithin larger budget es)
  | [], _ => .same _
  | e :: rest, budget => by
    rw [evalAllWithin, evalAllWithin]
    by_cases hbudget : budget < callCost
    · rw [if_pos hbudget, if_pos hbudget]
      exact .same _
    · rw [if_neg hbudget, if_neg hbudget]
      obtain hx | ⟨_, _, _, hx, hnone, hsome⟩ := (evalWithin_conserved h e (budget - callCost)).elim <;> rw [hx]
      · obtain hvalues | ⟨_, _, _, hvalues, hnone, hsome⟩ := (evalAllWithin_conserved h rest budget).elim <;>
          rw [hvalues]
        · exact .same _
        · cases evalWithin r (budget - callCost) e with
          | error e => exact .same _
          | ok x => exact .known hnone hsome
      · exact .known hnone hsome

end

/-- **Whole answers**: they are the same, or the first is an unknown function that the larger registry knows. -/
theorem calculate_conserved [Platform] (h : r.Extends larger) (code : Text) : calculate larger code = calculate r code ∨
    ∃ name position f, calculate r code = .error (.evaluation (.unknownFunction name position)) ∧
      r.find? name = none ∧ larger.find? name = some f := by
  rw [calculate, calculate, calculateSource, calculateSource]
  cases parse (scan code) with
  | error e => exact .inl rfl
  | ok tree =>
    simp only [evaluate]
    obtain hx | ⟨name, position, f, hx, hnone, hsome⟩ := (evalWithin_conserved h tree Platform.stackBudget).elim <;>
      rw [hx]
    · exact .inl rfl
    · exact .inr ⟨name, position, f, rfl, hnone, hsome⟩

/-! ## Registries -/

namespace Registry

theorem extends_attemptAll (r : Registry) (gs : List Registration) : r.Extends (r.attemptAll gs) := by
  intro name f h
  rw [find?_eq] at h ⊢
  rw [firstWithKey_attemptAll, firstWithKey_append, h]
  rfl

/-- A name that has come to have a function has one of those that were registered. -/
theorem find?_attemptAll_of_none {gs : List Registration} {name : Text} {f : Function} (hnone : r.find? name = none)
    (h : (r.attemptAll gs).find? name = some f) : ∃ g ∈ gs, f = g.function ∧ caseFold g.name = caseFold name := by
  rw [find?_eq] at hnone h
  rw [firstWithKey_attemptAll, firstWithKey_append, hnone, Option.none_or] at h
  obtain ⟨hmem, hkey⟩ := mem_of_firstWithKey h
  obtain ⟨g, hg, rfl⟩ := List.mem_map.1 hmem
  exact ⟨g, hg, rfl, hkey⟩

/-- What a name means depends on the functions and not on their order. -/
theorem find?_eq_some_iff {name : Text} {f : Function} :
    r.find? name = some f ↔ f ∈ r.functions ∧ f.key = caseFold name := by
  refine ⟨mem_of_firstWithKey, fun ⟨hmem, hkey⟩ => ?_⟩
  obtain ⟨f', hf'⟩ := Option.isSome_iff_exists.1 (isSome_firstWithKey.2 ⟨f, hmem, hkey⟩)
  obtain ⟨hmem', hkey'⟩ := mem_of_firstWithKey hf'
  rw [find?_eq, hf', List.inj_on_of_nodup_map r.distinct hmem' hmem (hkey'.trans hkey.symm)]

theorem extends_of_mem_iff (h : ∀ f, f ∈ r.functions ↔ f ∈ larger.functions) : r.Extends larger := by
  intro name f hf
  rw [find?_eq_some_iff, h] at hf
  exact find?_eq_some_iff.2 hf

end Registry

/-- **Registering functions is conservative.**  Whatever is registered between two evaluations of an expression, and
whether it is accepted or refused: a value stays that value, and a failure stays that failure unless it is an unknown
function whose name has been registered meanwhile, in some spelling.  The second outcome depends on the entries of the
registry and not on the order in which they were made. -/
theorem registering_is_conservative [Platform] (r : Registry) (gs : List Registration) (code : Text) :
    (∀ x, calculate r code = .ok x → calculate (r.attemptAll gs) code = .ok x) ∧
    (∀ f, calculate r code = .error f → calculate (r.attemptAll gs) code = .error f ∨
      ∃ name position, f = .evaluation (.unknownFunction name position) ∧
        ∃ g ∈ gs, caseFold g.name = caseFold name ∧ (r.attemptAll gs).find? name = some g.function) ∧
    ∀ r' : Registry, (∀ f, f ∈ r'.functions ↔ f ∈ (r.attemptAll gs).functions) →
      calculate r' code = calculate (r.attemptAll gs) code := by
  have hgrown := calculate_conserved (r.extends_attemptAll gs) code
  refine ⟨fun x hx => ?_, fun f hf => ?_, fun r' hentries => ?_⟩
  · obtain hsame | ⟨name, position, f, hunknown, -, -⟩ := hgrown
    · exact hsame.trans hx
    · cases hx.symm.trans hunknown
  · obtain hsame | ⟨name, position, f', hunknown, hnone, hsome⟩ := hgrown
    · exact .inl (hsame.trans hf)
    · obtain ⟨g, hg, rfl, hkey⟩ := Registry.find?_attemptAll_of_none hnone hsome
      exact .inr ⟨name, position, Except.error.inj (hf.symm.trans hunknown), g, hg, hkey, hsome⟩
  · -- each of two registries with the same entries extends the other
    obtain hsame | ⟨name, position, f, -, hnone, hsome⟩ :=
      calculate_conserved (Registry.extends_of_mem_iff fun f => (hentries f).symm) code
    · exact hsame
    · rw [Registry.extends_of_mem_iff hentries name f hsome] at hnone
      cases hnone

end Calculator
