import InterfaceSchema.Text.Basic

/-!
# Faults in structured data

What can be wrong with a text that should hold data of a certain form, and
which part of the text is to blame.
-/

namespace InterfaceSchema

/-- Why a JSON text cannot be read any further. -/
inductive Malformed where
  | endInList | endInObject | endInString | endInValue
  | expectedColon | expectedListComma | expectedObjectComma
  | expectedWord | expectedValue
  | invalidEscape | invalidNumber | numberTooLarge
  | controlCharacter | keyNotString | loneSurrogate | cutSurrogate
  | trailingComma | trailingCharacters | tooDeep
deriving DecidableEq, Repr

/-- The wording of a reason. -/
def Malformed.message : Malformed → Text
  | .endInList => "EOF while parsing a list"
  | .endInObject => "EOF while parsing an object"
  | .endInString => "EOF while parsing a string"
  | .endInValue => "EOF while parsing a value"
  | .expectedColon => "expected `:`"
  | .expectedListComma => "expected `,` or `]`"
  | .expectedObjectComma => "expected `,` or `\x7d`"
  | .expectedWord => "expected ident"
  | .expectedValue => "expected value"
  | .invalidEscape => "invalid escape"
  | .invalidNumber => "invalid number"
  | .numberTooLarge => "number out of range"
  | .controlCharacter => "control character (\\u0000-\\u001F) found while parsing a string"
  | .keyNotString => "key must be a string"
  | .loneSurrogate => "lone leading surrogate in hex escape"
  | .cutSurrogate => "unexpected end of hex escape"
  | .trailingComma => "trailing comma"
  | .trailingCharacters => "trailing characters"
  | .tooDeep => "recursion limit exceeded"

/-- What is wrong. -/
inductive Problem where
  | malformed (reason : Malformed)
  /-- A value of another kind than the expected one, both described. -/
  | wrongKind (found expected : Text)
  | missing (field : Text)
  | duplicate (field : Text)
  /-- A list of the wrong length, and what was expected. -/
  | wrongLength (length : Nat) (expected : Text)
  /-- An integer beyond 128 bits. -/
  | integerTooLarge
  /-- A numeral beyond the range of doubles. -/
  | decimalTooLarge
deriving DecidableEq, Repr

/-- A number in decimal digits. -/
def decimalDigits (n : Nat) : Text := Nat.toDigits 10 n

/-- The wording of a problem. -/
def Problem.message : Problem → Text
  | .malformed reason => reason.message
  | .wrongKind found expected => "invalid type: " ++ (found ++ (", expected " ++ expected))
  | .missing field => "missing field `" ++ field ++ "`"
  | .duplicate field => "duplicate field `" ++ field ++ "`"
  | .wrongLength length expected =>
    "invalid length " ++ (decimalDigits length ++ (", expected " ++ expected))
  | .integerTooLarge => "integer number overflowed"
  | .decimalTooLarge => "floating-point number overflowed"

/-- The part of a text that is to blame. -/
inductive Site where
  /-- Reading stopped here. -/
  | position (place : Nat)
  /-- A value that consists of a single word, number or string. -/
  | scalar (span : Span)
  /-- A list or table. -/
  | container (span : Span)
  /-- A list or table that ends too early. -/
  | lacking (span : Span)
  /-- A key that its table already has. -/
  | repeated (table : Span) (afterKey : Nat)
  /-- An item too many, which starts here. -/
  | surplus (start : Nat)
deriving DecidableEq, Repr

namespace Site

/-- The position up to which a text of `length` bytes has been read when the
fault is found. -/
def readUpTo (length : Nat) : Site → Nat
  | position place => place
  | scalar span | lacking span => span.stop
  | container span => span.start
  | repeated _ afterKey => afterKey
  | surplus start => min (start + 1) length

/-- The span to point at. -/
def span : Site → Span
  | position place => ⟨place, place⟩
  | scalar span | container span | lacking span => span
  | repeated table _ => table
  | surplus start => ⟨start, start⟩

end Site

/-- A problem and its place. -/
structure Fault where
  problem : Problem
  site : Site
deriving DecidableEq, Repr

/-- A fault in the form of the text itself. -/
def Fault.malformed (reason : Malformed) (position : Nat) : Fault :=
  ⟨.malformed reason, .position position⟩

end InterfaceSchema
