import InterfaceSchema.Text.Blank

/-!
# Lines and columns

A position can be told by its line, counted from one, and by the bytes of
that line before it.
-/

namespace InterfaceSchema.Text

/-- A position as people read it. -/
structure LineColumn where
  /-- The line, counted from one. -/
  line : Nat
  /-- The bytes of the line before the position. -/
  column : Nat
deriving DecidableEq, Repr

/-- The line and column that are reached after so many more bytes. -/
def LineColumn.after (here : LineColumn) (bytes : Nat) : Text → LineColumn
  | [] => { here with column := here.column + bytes }
  | c :: rest =>
    if bytes < c.utf8Size then { here with column := here.column + bytes }
    else if c = '\n' then LineColumn.after ⟨here.line + 1, 0⟩ (bytes - 1) rest
    else LineColumn.after ⟨here.line, here.column + c.utf8Size⟩ (bytes - c.utf8Size) rest

/-- The line and column of a byte position. -/
def lineColumn (text : Text) (position : Nat) : LineColumn := LineColumn.after ⟨1, 0⟩ position text

/-- The byte position of a line and a column that are both counted from one.
It never lies behind the text. There is no line zero. Lines and columns may be
larger than those of the text, and their numbers have no bound. -/
def offsetOf? (text : Text) (line column : Nat) : Option Nat :=
  if line = 0 then none
  else
    let before := byteLength ((linesWithEnds text).take (line - 1)).flatten
    some (min (before + (column - 1)) (byteLength text))

end InterfaceSchema.Text
