/-!
# Text — characters in order, and classes of code points

The calculator reads and writes lists of characters: a position is the index of a code point, and cutting a text is
`take` and `drop`.  A character class with many members is a list of inclusive ranges of code points in ascending order;
the modules beside this one hold one class each, as the Unicode 14 character database gives it.
-/
namespace Calculator

/-- A text is its characters in order. -/
abbrev Text := List Char

/-! ## Classes given by ranges -/

/-- Whether a code point lies in one of the ranges.  They ascend, so a range that starts beyond it ends the search. -/
def inRanges (n : Nat) : List (Nat × Nat) → Bool
  | [] => false
  | (low, high) :: rest => if n < low then false else if n ≤ high then true else inRanges n rest

/-! ## Order

Texts are listed by the code points of their first difference. -/

def precedes : Text → Text → Bool
  | [], _ => true
  | _ :: _, [] => false
  | a :: s, b :: t => if a = b then precedes s t else a.toNat < b.toNat

/-! ## Numerals -/

/-- The decimal numeral of a natural number, without leading zeros. -/
def numeral (n : Nat) : Text := Nat.toDigits 10 n

/-- The decimal numeral of an integer, with a minus sign if it is negative. -/
def signedNumeral (i : Int) : Text := if i < 0 then '-' :: numeral i.natAbs else numeral i.natAbs

/-- The number that a row of ASCII digits denotes; no digit at all denotes zero. -/
def ofDigits (digits : Text) : Nat := digits.foldl (fun n c => 10 * n + (c.toNat - '0'.toNat)) 0

/-- A text brought to a width with leading zeros. -/
def zeroPadded (width : Nat) (t : Text) : Text := List.replicate (width - t.length) '0' ++ t

end Calculator
