import Calculator.Token.Basic
/-!
# Sources of tokens, and reading from them

A source is a row of tokens that may end in a scan error.  It is read from left to right and never further than asked:
the tokens before an error are good, and the error counts only for one who gets there.

A `Cursor` reads a source one item ahead.  Looking ahead does not consume; an end mark is never consumed, so once one is
ahead it stays there.  Where the source runs out without an end mark, one is supplied just behind the last consumed
token.  A scan error is reported once, and after it the source is empty.
-/
namespace Calculator

/-- Why a text cannot be cut into tokens. -/
inductive ScanFault where
  | unexpectedCharacter (found : Char)
  | invalidNumber (found : Text)
deriving DecidableEq

structure ScanError where
  fault : ScanFault
  position : Int
deriving DecidableEq

structure Source where
  tokens : List Token
  failure : Option ScanError
deriving DecidableEq

namespace Source

/-- A source that gives some tokens and then what another source gives. -/
def prepend (ts : List Token) (s : Source) : Source := ⟨ts ++ s.tokens, s.failure⟩

/-- Tokens made by hand. -/
def ofTokens (ts : List Token) : Source := ⟨ts, none⟩

end Source

/-! ## The cursor -/

structure Cursor where
  /-- The consumed tokens, the last one first. -/
  consumed : List Token
  /-- The item that has been looked at and not consumed. -/
  ahead : Option Token
  /-- What has not been read. -/
  unread : Source

namespace Cursor

def ofSource (s : Source) : Cursor := ⟨[], none, s⟩

/-- The end mark for a source that has none: just behind the last consumed token. -/
def missingEnd (c : Cursor) : Token :=
  match c.consumed with
  | [] => .endMark 0
  | last :: _ => .endMark last.stop

/-- Look at the next item. -/
def peek (c : Cursor) : Except ScanError Token × Cursor :=
  match c.ahead with
  | some t => (.ok t, c)
  | none =>
    match c.unread with
    | ⟨t :: ts, failure⟩ => (.ok t, { c with ahead := some t, unread := ⟨ts, failure⟩ })
    | ⟨[], some e⟩ => (.error e, { c with unread := ⟨[], none⟩ })
    | ⟨[], none⟩ => (.ok c.missingEnd, { c with ahead := some c.missingEnd })

/-- Look at the next item and consume it, unless it is an end mark. -/
def advance (c : Cursor) : Except ScanError Token × Cursor :=
  match c.peek with
  | (.error e, after) => (.error e, after)
  | (.ok t, after) =>
    (.ok t, if t.isEnd then after else { after with consumed := t :: after.consumed, ahead := none })

/-- The two ways to read. -/
inductive Move where
  | peek | advance
deriving DecidableEq

def move (c : Cursor) : Move → Except ScanError Token × Cursor
  | .peek => c.peek
  | .advance => c.advance

/-- What some moves read, each with the cursor after it. -/
def moves (c : Cursor) : List Move → List (Except ScanError Token × Cursor)
  | [] => []
  | m :: rest => c.move m :: (c.move m).2.moves rest

end Cursor
end Calculator
