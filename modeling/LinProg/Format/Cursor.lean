/-!
Places in a text.
-/

namespace LinProg.Format

/-- A place in a text. Lines are counted from one, and only a line feed ends a line. -/
structure Cursor where
  rest : List Char
  /-- The count of characters in front of the place. -/
  offset : Nat
  line : Nat
  deriving DecidableEq, Repr

namespace Cursor

def ofText (text : String) : Cursor := ⟨text.toList, 0, 1⟩

/-- The count of lines that a piece of text ends. -/
def lineFeeds (piece : List Char) : Nat := piece.count '\n'

/-- The place behind the next `n` characters. -/
def advance (n : Nat) (c : Cursor) : Cursor :=
  ⟨c.rest.drop n, c.offset + n, c.line + lineFeeds (c.rest.take n)⟩

end Cursor

end LinProg.Format
