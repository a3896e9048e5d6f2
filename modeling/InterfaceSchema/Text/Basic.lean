/-!
# Texts and their bytes

A text is a list of characters. Positions inside a text are counted in
bytes of its UTF-8 form, because that is how positions are reported; a span
is a half-open range of such positions. Cutting a text at byte positions
keeps whole characters only.
-/

namespace InterfaceSchema

/-- A text, as the list of its characters. -/
abbrev Text := List Char

instance : Coe String Text := ⟨String.toList⟩

namespace Text

/-- Number of bytes of the UTF-8 form. -/
def byteLength : Text → Nat
  | [] => 0
  | c :: rest => c.utf8Size + byteLength rest

/-- The empty text has no bytes. -/
@[simp] theorem byteLength_nil : byteLength [] = 0 := rfl

/-- One character more adds its own bytes. -/
@[simp] theorem byteLength_cons (c : Char) (rest : Text) :
    byteLength (c :: rest) = c.utf8Size + byteLength rest := rfl

/-- Bytes add up over concatenation. -/
@[simp] theorem byteLength_append (a b : Text) :
    byteLength (a ++ b) = byteLength a + byteLength b := by
  induction a with
  | nil => simp
  | cons c rest ih => simp [ih, Nat.add_assoc]

/-- What is left after the first `n` bytes; a character that is cut goes. -/
def dropBytes : Nat → Text → Text
  | 0, text => text
  | _, [] => []
  | n + 1, c :: rest => dropBytes (n + 1 - c.utf8Size) rest

/-- The characters that lie within the first `n` bytes. -/
def takeBytes : Nat → Text → Text
  | _, [] => []
  | n, c :: rest => if c.utf8Size ≤ n then c :: takeBytes (n - c.utf8Size) rest else []

/-- Dropping exactly the bytes of the first part leaves the second. -/
theorem dropBytes_byteLength_append (a b : Text) : dropBytes (byteLength a) (a ++ b) = b := by
  induction a with
  | nil => simp [dropBytes]
  | cons c rest ih =>
    have hc := c.utf8Size_pos
    obtain ⟨k, hk⟩ : ∃ k, byteLength (c :: rest) = k + 1 := ⟨c.utf8Size + byteLength rest - 1, by
      simp; omega⟩
    rw [hk, List.cons_append, dropBytes, ← hk]
    simpa using ih

/-- Taking exactly the bytes of the first part gives the first part. -/
theorem takeBytes_byteLength_append (a b : Text) : takeBytes (byteLength a) (a ++ b) = a := by
  induction a with
  | nil => cases b with
    | nil => rfl
    | cons d more =>
      have hd := d.utf8Size_pos
      simp only [byteLength_nil, List.nil_append, takeBytes]
      rw [if_neg (by omega)]
  | cons c rest ih => simp [takeBytes, ih]

end Text

/-- A half-open range of byte positions. -/
structure Span where
  /-- Position of the first byte. -/
  start : Nat
  /-- Position after the last byte. -/
  stop : Nat
deriving DecidableEq, Repr

namespace Span

/-- The smallest span that covers both. -/
def cover (a b : Span) : Span := ⟨min a.start b.start, max a.stop b.stop⟩

/-- The part of `text` that the span covers. -/
def slice (span : Span) (text : Text) : Text :=
  Text.takeBytes (span.stop - span.start) (Text.dropBytes span.start text)

/-- A span laid around the middle of three parts cuts out the middle. -/
theorem slice_append (before middle after : Text) :
    slice ⟨Text.byteLength before, Text.byteLength before + Text.byteLength middle⟩
      (before ++ (middle ++ after)) = middle := by
  simp [slice, Text.dropBytes_byteLength_append, Text.takeBytes_byteLength_append]

end Span

end InterfaceSchema
