import InterfaceSchema.Data.Fault
import InterfaceSchema.Text.Cursor
import InterfaceSchema.Text.Hex

/-!
# JSON strings

A string is read character by character. An escape of four hexadecimal
digits stands for a UTF-16 unit, so a character beyond the first 65536 takes
a leading and a trailing one. A string with a unit that has no partner cannot
be used, but it can be passed over.
-/

namespace InterfaceSchema.Json

/-- What has been read of a string. -/
structure QuotedState where
  position : Nat
  /-- The characters so far, the last one first. -/
  kept : Text
  /-- What makes the string unusable. -/
  trouble : Option Fault
  /-- A leading unit that waits for its partner. -/
  lead : Option Nat
  /-- Whether the character before was a backslash that starts an escape. -/
  escaped : Bool
  /-- How many characters belong to an escape that has been read. -/
  skip : Nat

/-- How a string ends. -/
inductive QuotedEnd where
  /-- With a quote; then the reading goes on. -/
  | closed (value : Except Fault Text) (after : Cursor)
  /-- It cannot be read to its end. -/
  | broken (used skipped : Fault)

/-- The character that a simple escape stands for. -/
def escapedChar? : Char → Option Char
  | '"' => some '"'
  | '\\' => some '\\'
  | '/' => some '/'
  | 'b' => some '\x08'
  | 'f' => some '\x0c'
  | 'n' => some '\n'
  | 'r' => some '\r'
  | 't' => some '\t'
  | _ => none

/-- Whether a unit is the first of two. -/
def isLeading (unit : Nat) : Bool := 0xD800 ≤ unit && unit ≤ 0xDBFF

/-- Whether a unit is the second of two. -/
def isTrailing (unit : Nat) : Bool := 0xDC00 ≤ unit && unit ≤ 0xDFFF

namespace QuotedState

/-- The string is unusable from now on, unless it was before. -/
def spoil (state : QuotedState) (reason : Malformed) (position : Nat) : QuotedState :=
  { state with trouble := state.trouble <|> some (.malformed reason position), lead := none }

/-- A waiting unit finds something else than a second unit. -/
def settle (state : QuotedState) : QuotedState :=
  match state.lead with
  | some _ => state.spoil .cutSurrogate (state.position + 1)
  | none => state

/-- The state after a character that takes so many bytes to write. -/
def push (state : QuotedState) (c : Char) (bytes : Nat) : QuotedState :=
  { state.settle with position := state.position + bytes, kept := c :: state.kept, escaped := false }

/-- The state after an escaped unit. -/
def unit (state : QuotedState) (n : Nat) : QuotedState :=
  let after := { state with position := state.position + 1, escaped := false, skip := 4 }
  match state.lead with
  | some first =>
    if isTrailing n then
      let code := 0x10000 + (first - 0xD800) * 0x400 + (n - 0xDC00)
      { after with kept := Char.ofNat code :: state.kept, lead := none }
    else after.spoil .loneSurrogate (state.position + 5)
  | none =>
    if isTrailing n then after.spoil .loneSurrogate (state.position + 5)
    else if isLeading n then { after with lead := some n }
    else { after with kept := Char.ofNat n :: state.kept }

/-- The string cannot be read any further. -/
def fail (state : QuotedState) (reason : Malformed) (used skipped : Nat) : QuotedEnd :=
  .broken (state.trouble.getD (.malformed reason used)) (.malformed reason skipped)

/-- The end of the string. -/
def close (state : QuotedState) (rest : Text) : QuotedEnd :=
  let settled := state.settle
  .closed (match settled.trouble with
    | some fault => .error fault
    | none => .ok state.kept.reverse) ⟨rest, state.position + 1⟩

/-- Read on from a state. -/
def read (state : QuotedState) : Text → QuotedEnd
  | [] => state.fail .endInString state.position state.position
  | c :: rest =>
    if 0 < state.skip then
      read { state with skip := state.skip - 1, position := state.position + c.utf8Size } rest
    else if state.escaped then
      if c = 'u' then
        match Text.hexNumber? 4 rest with
        | some n => read (state.unit n) rest
        | none =>
          let more := Text.byteLength rest
          if more < 4 then state.fail .endInString (state.position + 1 + more) (state.position + 1 + more)
          else state.fail .invalidEscape (state.position + 5) (state.position + 5)
      else
        match escapedChar? c with
        | some plain => read (state.push plain 1) rest
        | none => state.settle.fail .invalidEscape (state.position + 1) (state.position + 1)
    else if c = '"' then state.close rest
    else if c = '\\' then read { state with escaped := true, position := state.position + 1 } rest
    else if c.toNat < 32 then state.settle.fail .controlCharacter (state.position + 1) state.position
    else read (state.push c c.utf8Size) rest

end QuotedState

/-- Read a string whose opening quote has been read. -/
def readQuoted (cursor : Cursor) : QuotedEnd :=
  QuotedState.read ⟨cursor.position, [], none, none, false, 0⟩ cursor.rest

end InterfaceSchema.Json
