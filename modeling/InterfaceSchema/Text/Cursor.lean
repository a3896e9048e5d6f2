import InterfaceSchema.Text.Basic

/-!
# Cursors

A cursor is a place in a text that is being read: what is still to be read,
and the position in bytes.
-/

namespace InterfaceSchema

/-- A place in a text. -/
structure Cursor where
  /-- What is still to be read. -/
  rest : Text
  /-- How many bytes have been read. -/
  position : Nat
deriving DecidableEq, Repr

namespace Cursor

/-- The start of a text. -/
def start (text : Text) : Cursor := ⟨text, 0⟩

/-- One character further. -/
def next (cursor : Cursor) : Cursor :=
  match cursor.rest with
  | [] => cursor
  | c :: rest => ⟨rest, cursor.position + c.utf8Size⟩

/-- So many characters further. -/
def skip (cursor : Cursor) (count : Nat) : Cursor :=
  ⟨cursor.rest.drop count, cursor.position + Text.byteLength (cursor.rest.take count)⟩

/-- The longest stretch of characters with a property. -/
def taken (cursor : Cursor) (p : Char → Bool) : Text := cursor.rest.takeWhile p

/-- The place after the longest stretch of characters with a property. -/
def dropWhile (cursor : Cursor) (p : Char → Bool) : Cursor :=
  ⟨cursor.rest.dropWhile p, cursor.position + Text.byteLength (cursor.taken p)⟩

/-- The place after a word, if the word stands here. -/
def after? (cursor : Cursor) (word : Text) : Option Cursor :=
  if word.isPrefixOf cursor.rest then some (cursor.skip word.length) else none

/-- The position one byte further, except at the end. -/
def peeked (cursor : Cursor) : Nat :=
  if cursor.rest.isEmpty then cursor.position else cursor.position + 1

/-- The span from an earlier place to this one. -/
def spanFrom (cursor earlier : Cursor) : Span := ⟨earlier.position, cursor.position⟩

end Cursor

end InterfaceSchema
