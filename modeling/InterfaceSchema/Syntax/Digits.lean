import InterfaceSchema.Text.Basic

/-!
# Numerals

How numbers are spelled. A single underscore may stand between two digits.
Digits in base two, eight and sixteen follow `0b`, `0o` and `0x`; decimal
numbers may have a fraction and an exponent, and whole numbers without them
an `n` at the end. Reading takes the longest numeral at the front of a text.
-/

namespace InterfaceSchema.Digits

/-- Digits in the given base's sense, for bases up to sixteen. -/
def isDigitOf (base : Nat) (c : Char) : Bool :=
  let value :=
    if '0' ≤ c ∧ c ≤ '9' then c.toNat - '0'.toNat
    else if 'a' ≤ c ∧ c ≤ 'f' then c.toNat - 'a'.toNat + 10
    else if 'A' ≤ c ∧ c ≤ 'F' then c.toNat - 'A'.toNat + 10
    else base
  value < base

/-- More digits behind a digit, and what follows them. -/
def moreDigits (base : Nat) : Text → Text × Text
  | [] => ([], [])
  | '_' :: c :: rest =>
    if isDigitOf base c then
      let (digits, left) := moreDigits base rest
      ('_' :: c :: digits, left)
    else ([], '_' :: c :: rest)
  | c :: rest =>
    if isDigitOf base c then
      let (digits, left) := moreDigits base rest
      (c :: digits, left)
    else ([], c :: rest)

/-- Digits at the front, and what follows them. -/
def digits? (base : Nat) : Text → Option (Text × Text)
  | [] => none
  | c :: rest =>
    if isDigitOf base c then
      let (more, left) := moreDigits base rest
      some (c :: more, left)
    else none

/-- The whole part of a number with a fraction or an exponent: at most one
zero in front of other digits. -/
def wholePart? : Text → Option (Text × Text)
  | '0' :: c :: rest =>
    if c ≠ '0' ∧ isDigitOf 10 c then
      let (more, left) := moreDigits 10 rest
      some ('0' :: c :: more, left)
    else some (['0'], c :: rest)
  | text => digits? 10 text

/-- An exponent with its letter, and what follows it. -/
def exponent? : Text → Option (Text × Text)
  | e :: rest =>
    if e = 'e' ∨ e = 'E' then
      match rest with
      | sign :: more =>
        if sign = '+' ∨ sign = '-' then
          (digits? 10 more).map fun (digits, left) => (e :: sign :: digits, left)
        else (digits? 10 rest).map fun (digits, left) => (e :: digits, left)
      | [] => none
    else none
  | [] => none

/-- An exponent if there is one, and what follows it. -/
def optionalExponent (text : Text) : Text × Text := (exponent? text).getD ([], text)

/-- A suffix for whole numbers if there is one, and what follows it. -/
def optionalSuffix : Text → Text × Text
  | 'n' :: rest => (['n'], rest)
  | text => ([], text)

/-- A whole part with a fraction or an exponent, and what follows them. -/
def fractional? (text : Text) : Option (Text × Text) := do
  let (whole, rest) ← wholePart? text
  match rest with
  | '.' :: more =>
    let (places, left) := (digits? 10 more).getD ([], more)
    let (power, left) := optionalExponent left
    some (whole ++ '.' :: (places ++ power), left)
  | _ => do
    let (power, left) ← exponent? rest
    some (whole ++ power, left)

/-- A fraction without a whole part, and what follows it. -/
def bareFraction? : Text → Option (Text × Text)
  | '.' :: rest => do
    let (places, left) ← digits? 10 rest
    let (power, left) := optionalExponent left
    some ('.' :: (places ++ power), left)
  | _ => none

/-- The base that the second character of a number names. -/
def baseOf? (c : Char) : Option Nat :=
  if c = 'x' ∨ c = 'X' then some 16
  else if c = 'o' ∨ c = 'O' then some 8
  else if c = 'b' ∨ c = 'B' then some 2
  else none

/-- A number in a base that it names, and what follows it. -/
def based? : Text → Option (Text × Text)
  | '0' :: c :: rest => do
    let base ← baseOf? c
    let (digits, left) ← digits? base rest
    let (suffix, left) := optionalSuffix left
    some ('0' :: c :: (digits ++ suffix), left)
  | _ => none

/-- A whole number, and what follows it. -/
def whole? (text : Text) : Option (Text × Text) := do
  let (digits, left) ← digits? 10 text
  let (suffix, left) := optionalSuffix left
  some (digits ++ suffix, left)

/-- The longest numeral at the front of a text, and what follows it. -/
def read? (text : Text) : Option (Text × Text) :=
  (bareFraction? text).or ((based? text).or ((fractional? text).or (whole? text)))

end InterfaceSchema.Digits
