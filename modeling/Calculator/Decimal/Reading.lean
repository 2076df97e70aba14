import Calculator.Decimal.Basic
import Calculator.Text.Blank
import Calculator.Text.Numeral
/-!
# Reading numbers

`readUnsigned?` reads the number literals of an expression: ASCII digits with at most one point, at least one digit, and
perhaps an exponent.  `readNumber?` reads what a number token may carry when it is made by hand: a literal with a sign,
or one of the names of infinity and not-a-number, between blanks, in the decimal digits of any script, with single
underscores between digits.
-/
namespace Calculator
namespace Decimal

/-! ## Literals -/

/-- A row of digits, at least one, and nothing else. -/
def readDigits? (t : Text) : Option Nat := if t ≠ [] ∧ t.all Char.isDigit then some (ofDigits t) else none

/-- The exponent part of a literal; without one the exponent is zero. -/
def readExponent? : Text → Option Int
  | [] => some 0
  | c :: rest =>
    if c = 'e' ∨ c = 'E' then
      match rest with
      | '+' :: digits => (readDigits? digits).map Int.ofNat
      | '-' :: digits => (readDigits? digits).map fun n => -Int.ofNat n
      | digits => (readDigits? digits).map Int.ofNat
    else none

/-- The digits behind the point, if the text goes on with one, and what follows them. -/
def splitFraction : Text → Text × Text
  | '.' :: rest => rest.span Char.isDigit
  | rest => ([], rest)

/-- The decimal that a literal denotes. -/
def readUnsigned? (t : Text) : Option Decimal :=
  let (whole, afterWhole) := t.span Char.isDigit
  let (fraction, afterFraction) := splitFraction afterWhole
  if whole.isEmpty && fraction.isEmpty then none
  else (readExponent? afterFraction).map fun e => ⟨ofDigits (whole ++ fraction), e - fraction.length⟩

/-! ## Numbers written by hand -/

/-- A blank that may stand before or behind a number.  The separators of information are no such blanks. -/
def isMargin (c : Char) : Bool := isBlank c && !(0x1C ≤ c.toNat && c.toNat ≤ 0x1F)

def trimMargins (t : Text) : Text := ((t.dropWhile isMargin).reverse.dropWhile isMargin).reverse

/-- A decimal digit of any script as an ASCII digit; other characters stay. -/
def asciiDigit (c : Char) : Char :=
  match decimalDigit? c with
  | some n => Char.ofNat ('0'.toNat + n)
  | none => c

/-- A text without its underscores, each of which must stand between two digits. -/
def dropUnderscores? : Bool → Text → Option Text
  | _, [] => some []
  | _, ['_'] => none
  | afterDigit, '_' :: c :: rest =>
    if afterDigit && c.isDigit then (dropUnderscores? true rest).map (c :: ·) else none
  | _, c :: rest => (dropUnderscores? c.isDigit rest).map (c :: ·)

/-- A sign, if there is one, as "is negative", and the rest. -/
def splitSign : Text → Bool × Text
  | '-' :: rest => (true, rest)
  | '+' :: rest => (false, rest)
  | rest => (false, rest)

/-- The names of the doubles that have no digits, in any mixture of capitals and small letters. -/
def readName? (negative : Bool) (t : Text) : Option Binary64 :=
  let name := t.map Char.toLower
  if name = "inf".toList ∨ name = "infinity".toList then some (.infinite negative)
  else if name = "nan".toList then some .nan
  else none

end Decimal

/-- The double that the text of a number token denotes. -/
def readNumber? (t : Text) : Option Binary64 :=
  match Decimal.dropUnderscores? false ((Decimal.trimMargins t).map Decimal.asciiDigit) with
  | none => none
  | some plain =>
    let (negative, body) := Decimal.splitSign plain
    match Decimal.readName? negative body with
    | some x => some x
    | none => (Decimal.readUnsigned? body).map (·.toBinary64 negative)

end Calculator
