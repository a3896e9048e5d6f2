import InterfaceSchema.Data.Value
import InterfaceSchema.Decimal.Double
import InterfaceSchema.Text.Cursor

/-!
# JSON numbers

A number is a sign, whole digits, a fraction and an exponent. Whole numbers
of 64 bits are integers. All others become doubles: the leading digits, as
many as fit into 64 bits, are taken as a whole number and then multiplied or
divided by a power of ten, with a rounding after every step. An exponent that
goes beyond 31 bits is given up at the digit that makes it so great.
-/

namespace InterfaceSchema.Json

/-- The exponent of a number. -/
structure Exponent where
  value : Int
  /-- The position where it gets too great for any number, if it does. -/
  givenUp : Option Nat

/-- The parts of a number. -/
structure NumberParts where
  negative : Bool
  whole : Text
  fraction : Option Text
  exponent : Option Exponent

/-- Why a number cannot be read: if it is used, and if it is passed over. -/
structure NumberFault where
  used : Fault
  skipped : Fault

/-- The same fault in both cases. -/
def NumberFault.of (reason : Malformed) (position : Nat) : NumberFault :=
  ⟨.malformed reason position, .malformed reason position⟩

/-- A digit is missing here; `taken` tells whether the character that stands
in its place counts as read. -/
def noDigit (cursor : Cursor) : NumberFault :=
  if cursor.rest.isEmpty then
    ⟨.malformed .endInValue cursor.position, .malformed .invalidNumber cursor.position⟩
  else .of .invalidNumber (cursor.position + 1)

/-- The digits of a whole number. A zero stands alone. -/
def readWhole (cursor : Cursor) : Except NumberFault (Text × Cursor) :=
  match cursor.taken Char.isDigit with
  | [] => .error (noDigit cursor)
  | '0' :: _ :: _ => .error (.of .invalidNumber (cursor.position + 2))
  | digits => .ok (digits, cursor.dropWhile Char.isDigit)

/-- The digits behind a point, if there is one. -/
def readFraction (cursor : Cursor) : Except NumberFault (Option Text × Cursor) :=
  match cursor.after? "." with
  | none => .ok (none, cursor)
  | some inside =>
    match inside.taken Char.isDigit with
    | [] => .error (noDigit inside)
    | digits => .ok (some digits, inside.dropWhile Char.isDigit)

/-- A number with one more digit. -/
def addDigit (n : Nat) (c : Char) : Nat := 10 * n + (c.toNat - '0'.toNat)

/-- The number that digits stand for. -/
def digitsValue (digits : Text) : Nat := digits.foldl addDigit 0

/-- How many more digits it takes to bring a number to a limit, if they do. -/
def digitsTo? (limit n : Nat) : Text → Option Nat
  | [] => none
  | c :: rest =>
    if limit ≤ addDigit n c then some 1 else (digitsTo? limit (addDigit n c) rest).map (· + 1)

/-- The exponent with these digits, which start here. -/
def exponentOf (negative : Bool) (start : Cursor) (digits : Text) : Exponent :=
  if negative then ⟨-digitsValue digits, none⟩
  else ⟨digitsValue digits,
    (digitsTo? (Value.bitLimit 31).toNat 0 digits).map fun count => start.position + count⟩

/-- The exponent, if there is one. -/
def readExponent (cursor : Cursor) : Except NumberFault (Option Exponent × Cursor) :=
  match cursor.rest with
  | mark :: more =>
    if mark = 'e' ∨ mark = 'E' then
      let inside := match more with
        | '+' :: _ | '-' :: _ => cursor.next.next
        | _ => cursor.next
      match inside.taken Char.isDigit with
      | [] => .error (noDigit inside)
      | digits =>
        .ok (some (exponentOf (more.head? = some '-') inside digits), inside.dropWhile Char.isDigit)
    else .ok (none, cursor)
  | [] => .ok (none, cursor)

/-- The parts of the number that starts here. -/
def readParts (cursor : Cursor) : Except NumberFault (NumberParts × Cursor) := do
  let negative := cursor.rest.head? = some '-'
  let (whole, cursor) ← readWhole (if negative then cursor.next else cursor)
  let (fraction, cursor) ← readFraction cursor
  let (exponent, cursor) ← readExponent cursor
  .ok (⟨negative, whole, fraction, exponent⟩, cursor)

/-- Add digits to a number while it fits into 64 bits. The digits that are
left over are given back. -/
def gather (value : Nat) : Text → Nat × Text
  | [] => (value, [])
  | c :: rest =>
    let more := addDigit value c
    if more < Value.bitLimit 64 then gather more rest else (value, c :: rest)

/-- The greatest exponent of a power of ten that is a double. -/
def greatestPower : Nat := 308

/-- A power of ten as a double. -/
def tenPower (exponent : Nat) : Ratio :=
  ((Double.ofRatio? ⟨Nat.pow 10 exponent, 1⟩).map Double.value).getD ⟨1, 1⟩

/-- A double times a power of ten, rounded after every step; at most `steps`
steps. -/
def scale (d : Double) (exponent : Int) : Nat → Option Double
  | 0 => some d
  | steps + 1 =>
    if d.mantissa = 0 then some d
    else if 0 ≤ exponent then
      if exponent ≤ greatestPower then Double.ofRatio? (d.value.mul (tenPower exponent.toNat)) else none
    else if -exponent ≤ greatestPower then Double.ofRatio? (d.value.div (tenPower (-exponent).toNat))
    else do
      let d ← Double.ofRatio? (d.value.div (tenPower greatestPower))
      scale d (exponent + greatestPower) steps

/-- How a double is shown: with a point at its place if that takes few zeros,
and with an exponent otherwise. -/
def showDouble (d : Double) : Text :=
  let numeral := d.shortest
  if -5 < numeral.point ∧ numeral.point ≤ 16 then numeral.positional else numeral.scientific

/-- The double that a number stands for, unless it is too large for one. -/
def NumberParts.double? (parts : NumberParts) : Option Double := do
  let fraction := parts.fraction.getD []
  let (whole, leftOver) := gather 0 parts.whole
  let (significand, unused) := gather whole fraction
  let exponent : Int := (leftOver.length : Int) - (fraction.length - unused.length : Nat) +
    (parts.exponent.map Exponent.value).getD 0
  let start ← Double.ofRatio? ⟨significand, 1⟩
  scale start exponent 6

/-- The position where the number at `span` proves too large. -/
def NumberParts.tooLargeAt (parts : NumberParts) (span : Span) : Nat :=
  (parts.exponent.bind Exponent.givenUp).getD span.stop

/-- The value of a number that stands at `span`. -/
def NumberParts.value (parts : NumberParts) (span : Span) : Value :=
  let whole := digitsValue parts.whole
  let isWhole := parts.fraction.isNone && parts.exponent.isNone
  if isWhole && !parts.negative && whole < Value.bitLimit 64 then .integer whole span
  else if isWhole && parts.negative && 0 < whole && whole ≤ Value.bitLimit 63 then .integer (-whole) span
  else
    match parts.double? with
    | none => .refused (.malformed .numberTooLarge (parts.tooLargeAt span)) none span
    | some d => .decimal ((if parts.negative then ['-'] else []) ++ showDouble d) span

end InterfaceSchema.Json
