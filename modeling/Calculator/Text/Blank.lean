import Calculator.Text.Basic
/-!
# Blank characters

The characters that may stand between two tokens: the space separators of Unicode 14, and the characters whose
bidirectional class is white space, paragraph separator or segment separator.
-/
namespace Calculator

def blankRanges : List (Nat × Nat) := [
  (0x9, 0xD), (0x1C, 0x20), (0x85, 0x85), (0xA0, 0xA0), (0x1680, 0x1680), (0x2000, 0x200A), (0x2028, 0x2029),
  (0x202F, 0x202F), (0x205F, 0x205F), (0x3000, 0x3000)]

/-- A blank separates tokens and means nothing else. -/
def isBlank (c : Char) : Bool := inRanges c.toNat blankRanges

end Calculator
