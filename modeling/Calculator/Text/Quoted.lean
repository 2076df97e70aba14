import Calculator.Text.Printable
/-!
# Quoted texts

Messages and logs show a text between quotes and on one line.  Single quotes are taken, or double quotes if the text
holds a single quote and no double one.  The backslash and the quote that was taken get a backslash in front, line ends
and tabs have letters of their own, and any other character that is not printable is shown by its number in two, four or
eight hexadecimal digits.
-/
namespace Calculator

/-- The quote that surrounds a text. -/
def quoteFor (t : Text) : Char := if t.contains '\x27' && !t.contains '\x22' then '\x22' else '\x27'

/-- A character by its number. -/
def numbered (c : Char) : Text :=
  let code := Nat.toDigits 16 c.toNat
  if c.toNat < 0x100 then '\\' :: 'x' :: zeroPadded 2 code
  else if c.toNat < 0x10000 then '\\' :: 'u' :: zeroPadded 4 code
  else '\\' :: 'U' :: zeroPadded 8 code

/-- What stands for a character between two quotes. -/
def quotedChar (quote c : Char) : Text :=
  if c = '\\' || c = quote then ['\\', c]
  else if c = '\n' then ['\\', 'n']
  else if c = '\r' then ['\\', 'r']
  else if c = '\t' then ['\\', 't']
  else if isPrintable c then [c]
  else numbered c

/-- A text between quotes. -/
def quoted (t : Text) : Text :=
  let quote := quoteFor t
  quote :: t.flatMap (quotedChar quote) ++ [quote]

end Calculator
