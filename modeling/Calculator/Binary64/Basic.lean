/-!
# Binary64 — doubles, listed by size

Every finite double is a whole number of quanta of `2 ^ -1074`, the least positive double.  Listed by size the doubles
that are not negative have the ranks 0, 1, 2, …: the first `2 ^ 53` of them stand one quantum apart, and from there on
each further `2 ^ 52` ranks double the spacing (`sizeAt`).  A rank below `rankLimit` is all there is to say about a
finite double but its sign, so the type needs no other invariant; the double next in size is the one at the next rank,
its last bit is the parity of its rank, and its rank is what the low 63 bits of the interchange format hold.

There is one not-a-number: neither sign nor payload of a NaN is kept.
-/
namespace Calculator

/-- The quanta in one, `2 ^ 1074`. -/
def quantaPerUnit : Nat := Nat.pow 2 1074

/-- The ranks between one doubling of the spacing and the next, `2 ^ 52`. -/
def binade : Nat := 0x10000000000000

/-- The number of ranks, `2047 * 2 ^ 52`: from this one on a double is no longer finite. -/
def rankLimit : Nat := 0x7FF0000000000000

/-- How often the spacing has doubled at a rank. -/
def doublings (rank : Nat) : Nat := rank / binade - 1

/-- The size of the double at a rank, in quanta. -/
def sizeAt (rank : Nat) : Nat := (rank - doublings rank * binade) * Nat.pow 2 (doublings rank)

/-- A double. -/
inductive Binary64 where
  | nan
  | infinite (negative : Bool)
  | finite (negative : Bool) (rank : Fin rankLimit)
deriving DecidableEq

namespace Binary64

def zero (negative : Bool) : Binary64 := .finite negative ⟨0, by decide⟩

instance : Inhabited Binary64 := ⟨zero false⟩

/-! ## Parts and kinds -/

/-- The sign bit. -/
def isNegative : Binary64 → Bool
  | nan => false
  | infinite negative => negative
  | finite negative _ => negative

def isNaN : Binary64 → Bool
  | nan => true
  | _ => false

def isFinite : Binary64 → Bool
  | finite .. => true
  | _ => false

/-- The magnitude of a finite double in quanta. -/
def quanta : Binary64 → Nat
  | finite _ rank => sizeAt rank
  | _ => 0

/-- The value of a finite double in quanta. -/
def signedQuanta (x : Binary64) : Int := if x.isNegative then -(x.quanta : Int) else x.quanta

/-- A zero of either sign. -/
def isZero : Binary64 → Bool
  | finite _ rank => rank.val == 0
  | _ => false

/-- A finite double that is a whole number. -/
def isIntegral : Binary64 → Bool
  | finite _ rank => sizeAt rank % quantaPerUnit == 0
  | _ => false

/-- The whole part of the magnitude of a finite double. -/
def wholePart (x : Binary64) : Nat := x.quanta / quantaPerUnit

/-- A finite odd number. -/
def isOdd (x : Binary64) : Bool := x.isIntegral && x.wholePart % 2 == 1

/-! ## Signs -/

def neg : Binary64 → Binary64
  | nan => nan
  | infinite negative => infinite !negative
  | finite negative rank => finite (!negative) rank

/-- The same magnitude with a given sign bit. -/
def withSign (negative : Bool) : Binary64 → Binary64
  | nan => nan
  | infinite _ => infinite negative
  | finite _ rank => finite negative rank

def abs (x : Binary64) : Binary64 := x.withSign false

/-! ## Order

Ranks order the finite doubles, both zeros have the same place, the infinities stand at the rank past the last, and a
NaN has no place: it is neither below, nor equal to, nor above anything. -/

def place? : Binary64 → Option Int
  | nan => none
  | infinite negative => some (if negative then -(rankLimit : Int) else rankLimit)
  | finite negative rank => some (if negative then -(rank.val : Int) else rank.val)

def lt (x y : Binary64) : Bool :=
  match x.place?, y.place? with
  | some i, some j => i < j
  | _, _ => false

def le (x y : Binary64) : Bool :=
  match x.place?, y.place? with
  | some i, some j => i ≤ j
  | _, _ => false

/-- Equality as a comparison: the zeros are equal, and a NaN is not equal to itself. -/
def same (x y : Binary64) : Bool :=
  match x.place?, y.place? with
  | some i, some j => i == j
  | _, _ => false

end Binary64
end Calculator
