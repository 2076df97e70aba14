import Calculator.Function.Basic
import Calculator.Text.Quoted
/-!
# The registry

The functions that a call may name, in the order in which they were registered.  No two of them have the same key, so
the registry never changes what a name means: it grows, and a name that is taken is refused.
-/
namespace Calculator

structure Registry where
  functions : List Function
  distinct : (functions.map Function.key).Nodup

namespace Registry

/-- The function that a name means, in any spelling. -/
def find? (r : Registry) (name : Text) : Option Function := r.functions.find? fun f => f.key == caseFold name

def size (r : Registry) : Nat := r.functions.length

/-- Whether a key belongs to a function. -/
def hasKey (r : Registry) (key : Text) : Bool := (r.functions.map Function.key).contains key

theorem nodup_append_key {r : Registry} {f : Function} (h : r.hasKey f.key = false) :
    ((r.functions ++ [f]).map Function.key).Nodup := by
  have absent : f.key ∉ r.functions.map Function.key := by simpa [hasKey] using h
  rw [List.map_append, List.nodup_append]
  refine ⟨r.distinct, by simp, fun a ha b hb => ?_⟩
  rw [List.map_singleton, List.mem_singleton] at hb
  rintro rfl
  exact absent (hb ▸ ha)

/-- The registry with one more function, if its key is not taken. -/
def register? (r : Registry) (f : Function) : Option Registry :=
  if h : r.hasKey f.key = false then some ⟨r.functions ++ [f], nodup_append_key h⟩ else none

/-- The functions in the order of their keys. -/
def sorted (r : Registry) : List Function := r.functions.mergeSort fun f g => precedes f.key g.key

end Registry

/-- What is said of a name that is taken. -/
def takenMessage (name : Text) : Text := "Built-in function ".toList ++ quoted name ++ " is already registered".toList

/-! ## Registrations -/

/-- What is said when a function is to be registered.  One that is not variadic and has no upper bound takes as many
arguments as the lower bound says. -/
structure Registration where
  name : Text
  least : Int := 1
  most : Option Int := none
  variadic : Bool := false
  body : Body

/-- The function that a registration is about. -/
def Registration.function (g : Registration) : Function := ⟨g.name, .ofBounds g.least g.most g.variadic, g.body⟩

namespace Registry

/-- The registry with what a registration is about, or why there is none. -/
def register (r : Registry) (g : Registration) : Except Text Registry :=
  match r.register? g.function with
  | some larger => .ok larger
  | none => .error (takenMessage g.name)

/-- The registry after a registration; one that is refused changes nothing. -/
def attempt (r : Registry) (g : Registration) : Registry :=
  match r.register g with
  | .ok larger => larger
  | .error _ => r

/-- The registry after some registrations, one after the other. -/
def attemptAll (r : Registry) (gs : List Registration) : Registry := gs.foldl attempt r

end Registry
end Calculator
