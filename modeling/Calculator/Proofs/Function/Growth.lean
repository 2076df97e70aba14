import Calculator.Evaluation
import Calculator.Function.Builtin
/-!
# How a registry grows

A registration adds its function behind the others, or its key is taken and it changes nothing (`register_cases`).
Either way a key means what it meant before, and otherwise the function that was just to be registered.  So after any
run of registrations a key means the first function with that key among all that were to be registered, those that are
always there first (`firstWithKey_attemptAll`), and nothing else has to be known of the run.
-/
namespace Calculator

/-- The first of some functions with a key. -/
def firstWithKey (fs : List Function) (key : Text) : Option Function := fs.find? fun f => f.key == key

variable {fs : List Function} {f : Function} {key : Text}

theorem firstWithKey_append (fs fs' : List Function) (key : Text) :
    firstWithKey (fs ++ fs') key = (firstWithKey fs key).or (firstWithKey fs' key) := List.find?_append

theorem firstWithKey_singleton : firstWithKey [f] key = if f.key = key then some f else none := by
  by_cases h : f.key = key <;> simp [firstWithKey, h]

theorem mem_of_firstWithKey (h : firstWithKey fs key = some f) : f ∈ fs ∧ f.key = key :=
  ⟨List.mem_of_find?_eq_some h, by simpa using List.find?_some h⟩

theorem isSome_firstWithKey : (firstWithKey fs key).isSome = true ↔ ∃ f ∈ fs, f.key = key := by
  simp [firstWithKey, List.find?_isSome]

theorem firstWithKey_eq_some_iff : firstWithKey fs key = some f ↔
    ∃ before after, fs = before ++ f :: after ∧ caseFold f.name = key ∧ ∀ f' ∈ before, caseFold f'.name ≠ key := by
  rw [firstWithKey, List.find?_eq_some_iff_append]
  simp only [Function.key, beq_iff_eq, Bool.not_eq_eq_eq_not, Bool.not_true, beq_eq_false_iff_ne, ne_eq]
  constructor
  · rintro ⟨hkey, before, after, hfs, hbefore⟩
    exact ⟨before, after, hfs, hkey, hbefore⟩
  · rintro ⟨before, after, hfs, hkey, hbefore⟩
    exact ⟨hkey, before, after, hfs, hbefore⟩

namespace Registry

variable {r : Registry} {g : Registration} {gs : List Registration}

theorem find?_eq (r : Registry) (name : Text) : r.find? name = firstWithKey r.functions (caseFold name) := rfl

theorem hasKey_eq (r : Registry) (key : Text) : r.hasKey key = (firstWithKey r.functions key).isSome := by
  rw [Bool.eq_iff_iff, isSome_firstWithKey]
  simp [hasKey]

/-! ## One registration -/

/-- **What a registration does**: it is refused, or its function is added behind the others. -/
theorem register_cases (r : Registry) (g : Registration) :
    (r.hasKey (caseFold g.name) = true ∧ r.register g = .error (takenMessage g.name) ∧ r.attempt g = r) ∨
    (r.hasKey (caseFold g.name) = false ∧ ∃ larger, r.register g = .ok larger ∧ r.attempt g = larger ∧
      larger.functions = r.functions ++ [g.function]) := by
  cases hkey : r.hasKey g.function.key with
  | true =>
    have hregister : r.register g = .error (takenMessage g.name) := by simp [register, register?, hkey]
    exact .inl ⟨hkey, hregister, by rw [attempt, hregister]⟩
  | false =>
    have hregister : r.register g = .ok ⟨r.functions ++ [g.function], nodup_append_key hkey⟩ := by
      simp [register, register?, hkey]
    exact .inr ⟨hkey, _, hregister, by rw [attempt, hregister], rfl⟩

theorem register_refuses_iff : (∃ message, r.register g = .error message) ↔ r.hasKey (caseFold g.name) = true := by
  rcases register_cases r g with ⟨htaken, hregister, -⟩ | ⟨hfree, larger, hregister, -, -⟩
  · exact ⟨fun _ => htaken, fun _ => ⟨_, hregister⟩⟩
  · rw [hfree, hregister]
    exact ⟨nofun, nofun⟩

theorem attempt_of_error {message : Text} (h : r.register g = .error message) :
    message = takenMessage g.name ∧ r.attempt g = r := by
  rcases register_cases r g with ⟨-, hregister, hattempt⟩ | ⟨-, larger, hregister, -, -⟩
  · exact ⟨Except.error.inj (h.symm.trans hregister), hattempt⟩
  · cases hregister.symm.trans h

/-- **An accepted registration adds one entry** and changes no other. -/
theorem attempt_of_ok {larger : Registry} (h : r.register g = .ok larger) :
    r.attempt g = larger ∧ larger.size = r.size + 1 ∧
      ∀ key, firstWithKey larger.functions key =
        if key = caseFold g.name then some g.function else firstWithKey r.functions key := by
  rcases register_cases r g with ⟨-, hregister, -⟩ | ⟨hfree, larger', hregister, hattempt, hfunctions⟩
  · cases hregister.symm.trans h
  · cases hregister.symm.trans h
    refine ⟨hattempt, by rw [size, hfunctions]; exact List.length_append, fun key => ?_⟩
    rw [hfunctions, firstWithKey_append, firstWithKey_singleton, Function.key, Registration.function]
    by_cases hkey : key = caseFold g.name
    · rw [hasKey_eq, ← hkey, Option.isSome_eq_false_iff, Option.isNone_iff_eq_none] at hfree
      rw [if_pos hkey.symm, if_pos hkey, hfree]
      rfl
    · rw [if_neg (Ne.symm hkey), if_neg hkey, Option.or_none]

/-- **No key changes its meaning**, and the key of the registration has one afterwards. -/
theorem firstWithKey_attempt (r : Registry) (g : Registration) (key : Text) :
    firstWithKey (r.attempt g).functions key = firstWithKey (r.functions ++ [g.function]) key := by
  rcases register_cases r g with ⟨htaken, -, hattempt⟩ | ⟨-, larger, -, hattempt, hfunctions⟩
  · rw [hattempt, firstWithKey_append, firstWithKey_singleton]
    by_cases hkey : g.function.key = key
    · obtain ⟨f, hf⟩ := Option.isSome_iff_exists.1 ((hasKey_eq r key).symm.trans (hkey ▸ htaken))
      rw [hf]
      rfl
    · rw [if_neg hkey, Option.or_none]
  · rw [hattempt, hfunctions]

/-! ## A run of registrations -/

/-- **After a run of registrations** a key means the first function with that key that was to be registered. -/
theorem firstWithKey_attemptAll (key : Text) : ∀ (gs : List Registration) (r : Registry),
    firstWithKey (r.attemptAll gs).functions key = firstWithKey (r.functions ++ gs.map Registration.function) key
  | [], r => by rw [attemptAll, List.foldl_nil, List.map_nil, List.append_nil]
  | g :: gs, r => by
    have ih := firstWithKey_attemptAll key gs (r.attempt g)
    rw [attemptAll, List.foldl_cons, ← attemptAll, ih, firstWithKey_append, firstWithKey_attempt,
      ← firstWithKey_append, List.append_assoc]
    rfl

theorem hasKey_attemptAll (r : Registry) (gs : List Registration) (key : Text) :
    (r.attemptAll gs).hasKey key = true ↔ ∃ f ∈ r.functions ++ gs.map Registration.function, f.key = key := by
  rw [hasKey_eq, firstWithKey_attemptAll, isSome_firstWithKey]

/-! ## Calls -/

theorem accepts_iff {a : Arity} {given : Nat} :
    a.accepts given = true ↔ a.least ≤ given ∧ ∀ most, a.most = some most → (given : Int) ≤ most := by
  cases a with
  | mk least most => cases most <;> simp [Arity.accepts]

/-- **The calls that mean something**: the name has a function, and it accepts as many arguments as are given. -/
theorem resolve_eq_ok_iff {name : Text} {position : Option Int} {given : Nat} :
    r.resolve name position given = .ok f ↔ r.find? name = some f ∧ f.arity.accepts given = true := by
  unfold resolve
  cases r.find? name with
  | none => simp
  | some g =>
    cases h : g.arity.accepts given with
    | true =>
      simp only [h, if_true, Except.ok.injEq, Option.some.injEq]
      exact ⟨fun hg => ⟨hg, hg ▸ h⟩, And.left⟩
    | false =>
      simp only [h, Bool.false_eq_true, if_false, reduceCtorEq, Option.some.injEq, false_iff]
      rintro ⟨rfl, hf⟩
      rw [h] at hf
      cases hf

/-! ## What a registry accounts for -/

/-- **What a registry owes to the functions that were to be registered**, in the order in which they were.  Their keys
are its keys, and each key has the first function with it, as it was registered.  One more registration is refused
exactly if its key is there, and then it changes nothing; otherwise it gives its key its function and changes no other
key.  A name is looked up by its key in every spelling, constants are what they were, and a call is let through exactly
if its name has a function whose bounds hold the number of arguments. -/
structure Accounts [Platform] (r : Registry) (asked : List Function) : Prop where
  keys : ∀ key, r.hasKey key = true ↔ ∃ f ∈ asked, caseFold f.name = key
  entries : ∀ key f, firstWithKey r.functions key = some f ↔
    ∃ before after, asked = before ++ f :: after ∧ caseFold f.name = key ∧ ∀ f' ∈ before, caseFold f'.name ≠ key
  refused : ∀ g, (∃ message, r.register g = .error message) ↔ r.hasKey (caseFold g.name) = true
  unchanged : ∀ g message, r.register g = .error message → message = takenMessage g.name ∧ r.attempt g = r
  added : ∀ g larger, r.register g = .ok larger → r.attempt g = larger ∧ larger.size = r.size + 1 ∧
    ∀ key, firstWithKey larger.functions key =
      if key = caseFold g.name then some g.function else firstWithKey r.functions key
  found : ∀ name, r.find? name = firstWithKey r.functions (caseFold name)
  constants : ∀ name position, eval r (.constant name position) = eval .builtin (.constant name position)
  calls : ∀ name position given, (∃ f, r.resolve name position given = .ok f) ↔
    ∃ f, r.find? name = some f ∧ f.arity.least ≤ given ∧ ∀ most, f.arity.most = some most → (given : Int) ≤ most

/-- **Registrations accumulate.**  After any run of registrations, accepted or refused, the registry accounts for the
functions that are always there and for the registered ones, of which each has the name and the bounds that the
registration gives it. -/
theorem registrations_accumulate [Platform] (gs : List Registration) :
    (Registry.builtin.attemptAll gs).Accounts (Builtin.functions ++ gs.map Registration.function) ∧
    ∀ g : Registration, g.function.name = g.name ∧ g.function.arity.least = g.least ∧
      g.function.arity.most = if g.variadic then none else some (g.most.getD g.least) := by
  refine ⟨⟨fun key => hasKey_attemptAll .builtin gs key, fun key f => ?_, fun g => register_refuses_iff,
    fun g message => attempt_of_error, fun g larger => attempt_of_ok, fun name => rfl, fun name position => rfl,
    fun name position given => ?_⟩, fun g => ⟨rfl, rfl, rfl⟩⟩
  · rw [firstWithKey_attemptAll]
    exact firstWithKey_eq_some_iff
  · simp only [resolve_eq_ok_iff, accepts_iff]

end Registry
end Calculator
