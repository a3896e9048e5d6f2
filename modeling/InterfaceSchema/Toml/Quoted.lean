import InterfaceSchema.Text.Cursor
import InterfaceSchema.Text.Hex

/-!
# TOML strings

Strings stand between single quotes, where every character stands for
itself, or between double quotes, where a backslash starts an escape. With
three quotes on each side a string may go over several lines: a line break
right at its start does not count, and after a backslash at the end of a line
all blanks and line breaks are left out.
-/

namespace InterfaceSchema.Toml

/-- What was read and where to go on. -/
abbrev Reading (α : Type) := Option (α × Cursor)

/-- Blanks within a line. -/
def isBlank (c : Char) : Bool := c == ' ' || c == '\t'

/-- Characters that occur in no string and no comment. -/
def isForbidden (c : Char) : Bool := (c.toNat < 32 && c != '\t') || c.toNat == 127

/-- The two kinds of quotes. -/
inductive QuoteKind where
  | single
  | double
deriving DecidableEq, Repr

/-- The character of a kind. -/
def QuoteKind.char : QuoteKind → Char
  | .single => '\''
  | .double => '"'

/-- What the next character means. -/
inductive QuotedMode where
  | plain
  /-- It belongs to an escape. -/
  | escape
  /-- A line break has to follow, blanks aside. -/
  | lineEnd
  /-- Blanks and line breaks are left out. -/
  | folding
deriving DecidableEq, Repr

/-- What has been read of a string. -/
structure QuotedState where
  /-- Whether the string may go over several lines. -/
  multiline : Bool
  kind : QuoteKind
  mode : QuotedMode
  position : Nat
  /-- The characters so far, the last one first. -/
  kept : Text
  /-- How many characters have been read already. -/
  skip : Nat

/-- The character for a simple escape. -/
def escapedChar? : Char → Option Char
  | 'b' => some '\x08'
  | 't' => some '\t'
  | 'n' => some '\n'
  | 'f' => some '\x0c'
  | 'r' => some '\r'
  | 'e' => some '\x1b'
  | '"' => some '"'
  | '\\' => some '\\'
  | _ => none

/-- How many hexadecimal digits an escape takes. -/
def escapeLength? : Char → Option Nat
  | 'x' => some 2
  | 'u' => some 4
  | 'U' => some 8
  | _ => none

/-- The character with a code point, if there is one. -/
def charOf? (n : Nat) : Option Char := if n.isValidChar then some (Char.ofNat n) else none

/-- How many quotes close a string that starts like this, the quotes in front
of them included that belong to the string. -/
def closingQuotes (kind : QuoteKind) (text : Text) : Option Nat :=
  let count := (text.takeWhile (· == kind.char)).length
  if count < 3 then none else some (min count 5)

namespace QuotedState

/-- The state after a character that stands for itself. -/
def push (state : QuotedState) (c : Char) : QuotedState :=
  { state with mode := .plain, position := state.position + c.utf8Size, kept := c :: state.kept }

/-- The state after a character that is left out. -/
def pass (state : QuotedState) (c : Char) (mode : QuotedMode) : QuotedState :=
  { state with mode := mode, position := state.position + c.utf8Size }

/-- The state after a line break of one or two characters, which is kept as it
is written unless it belongs to an escape. -/
def lineBreak (state : QuotedState) (c : Char) (rest : Text) : Option QuotedState :=
  let isPair := c == '\r' && rest.head? == some '\n'
  let after := match state.mode with
    | .plain => { state with kept := (if isPair then ['\n', '\r'] else ['\n']) ++ state.kept }
    | _ => { state with mode := .folding }
  if !state.multiline then none
  else if isPair then some { after with position := after.position + 1, skip := 1 }
  else if c = '\n' then some { after with position := after.position + 1 }
  else none

/-- The state after a character in the middle of an escape. -/
def resolve (state : QuotedState) (c : Char) (rest : Text) : Option QuotedState :=
  match escapeLength? c with
  | some count => do
    let n ← Text.hexNumber? count rest
    let found ← charOf? n
    some { state with
      mode := .plain, position := state.position + 1, kept := found :: state.kept, skip := count }
  | none =>
    match escapedChar? c with
    | some found =>
      some { state with mode := .plain, position := state.position + 1, kept := found :: state.kept }
    | none =>
      if state.multiline && isBlank c then some (state.pass c .lineEnd)
      else if c = '\n' ∨ c = '\r' then state.lineBreak c rest
      else none

/-- The string, if it ends here, and the cursor after it. -/
def close? (state : QuotedState) (text : Text) : Reading Text :=
  if state.multiline then
    (closingQuotes state.kind text).map fun count =>
      ((List.replicate (count - 3) state.kind.char ++ state.kept).reverse,
        ⟨text.drop count, state.position + count⟩)
  else some (state.kept.reverse, ⟨text.tail, state.position + 1⟩)

/-- Read on to the end of the string. -/
def read (state : QuotedState) : Text → Reading Text
  | [] => none
  | c :: rest =>
    if 0 < state.skip then
      read { state with skip := state.skip - 1, position := state.position + c.utf8Size } rest
    else
      match state.mode with
      | .escape => (state.resolve c rest).bind fun after => read after rest
      | .lineEnd =>
        if isBlank c then read (state.pass c .lineEnd) rest
        else if c = '\n' ∨ c = '\r' then
          (state.lineBreak c rest).bind fun after => read after rest
        else none
      | _ =>
        if state.mode = .folding ∧ isBlank c then read (state.pass c .folding) rest
        else if c = '\n' ∨ c = '\r' then
          (state.lineBreak c rest).bind fun after => read after rest
        else if c = state.kind.char then
          match state.close? (c :: rest) with
          | some done => some done
          | none => read (state.push c) rest
        else if c = '\\' ∧ state.kind = .double then read (state.pass c .escape) rest
        else if isForbidden c then none
        else read (state.push c) rest

end QuotedState

/-- The place after a line break, if one stands here. -/
def afterLineBreak? (cursor : Cursor) : Option Cursor :=
  match cursor.rest with
  | '\n' :: _ => some cursor.next
  | '\r' :: '\n' :: _ => some cursor.next.next
  | _ => none

/-- Read a string on one line, which starts with a quote. -/
def readLine (kind : QuoteKind) (start : Cursor) : Reading Text :=
  QuotedState.read ⟨false, kind, .plain, start.position + 1, [], 0⟩ start.rest.tail

/-- Read a string, which starts with a quote. -/
def readQuoted (kind : QuoteKind) (start : Cursor) : Reading Text :=
  match start.after? (List.replicate 3 kind.char) with
  | none => readLine kind start
  | some inside =>
    let inside := (afterLineBreak? inside).getD inside
    QuotedState.read ⟨true, kind, .plain, inside.position, [], 0⟩ inside.rest

end InterfaceSchema.Toml
