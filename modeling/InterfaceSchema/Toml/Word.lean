import InterfaceSchema.Data.Value
import InterfaceSchema.Decimal.Double
import InterfaceSchema.Text.Hex
import InterfaceSchema.Text.Search

/-!
# TOML words

Truth values, numbers, dates and times are written as words without quotes.
Digits of numbers may be grouped by single underscores. A date or time is a
table with an entry of its own.
-/

namespace InterfaceSchema.Toml

/-- Characters of words. -/
def isWordChar (c : Char) : Bool := c.isAlphanum || "+-_.:".toList.contains c

/-- Digits without the underscores that group them, if every underscore
stands between two digits. -/
def ungrouped? (isDigit : Char → Bool) : Text → Option Text
  | [] => none
  | [c] => if isDigit c then some [c] else none
  | c :: '_' :: rest => if isDigit c then (ungrouped? isDigit rest).map (c :: ·) else none
  | c :: rest => if isDigit c then (ungrouped? isDigit rest).map (c :: ·) else none

/-- The number that digits of a base stand for. -/
def numberOf (base : Nat) (digits : Text) : Nat :=
  digits.foldl (fun n c => base * n + (Text.hexDigit? c).getD 0) 0

/-- Whether a character is a digit of a base. -/
def isDigitOf (base : Nat) (c : Char) : Bool := (Text.hexDigit? c).any (· < base)

/-- A sign and what follows it. -/
def splitSign : Text → Bool × Text
  | '-' :: rest => (true, rest)
  | '+' :: rest => (false, rest)
  | text => (false, text)

/-- Decimal digits without a superfluous zero in front. -/
def wholeDigits? (text : Text) : Option Text := do
  let digits ← ungrouped? Char.isDigit text
  if 1 < digits.length && digits.head? = some '0' then none else some digits

/-- A number with a sign. -/
def signed (negative : Bool) (n : Nat) : Int := if negative then -n else n

/-- An integer without a value. -/
def refusedInteger (span : Span) : Value :=
  let fault : Fault := ⟨.integerTooLarge, .scalar span⟩
  .refused fault (some fault) span

/-- The value of an integer. -/
def integerValue (n : Int) (span : Span) : Value :=
  if -Value.bitLimit 127 ≤ n ∧ n < Value.bitLimit 128 then .integer n span else refusedInteger span

/-- The base that a letter after a zero stands for. -/
def baseOf? (mark : Char) : Option Nat :=
  if mark = 'x' then some 16 else if mark = 'o' then some 8 else if mark = 'b' then some 2 else none

/-- An integer in base 16, 8 or 2. It may lack digits, and then it has no
value. -/
def readPrefixed? (text : Text) (span : Span) : Option Value :=
  match text with
  | '0' :: mark :: rest => do
    let base ← baseOf? mark
    if rest.isEmpty then some (refusedInteger span)
    else do
      let digits ← ungrouped? (isDigitOf base) rest
      some (integerValue (numberOf base digits) span)
  | _ => none

/-- A decimal integer. -/
def readInteger? (text : Text) : Option Int := do
  let (negative, rest) := splitSign text
  let digits ← wholeDigits? rest
  some (signed negative (numberOf 10 digits))

/-- The parts of a number with a fraction or an exponent: the digits, how
many of them stand behind the point, and the exponent. -/
structure DecimalParts where
  negative : Bool
  digits : Text
  places : Nat
  exponent : Int

/-- An exponent, whose zeros in front do not matter. -/
def readExponent? (text : Text) : Option Int := do
  let (negative, rest) := splitSign text
  let digits ← ungrouped? Char.isDigit rest
  some (signed negative (numberOf 10 digits))

/-- Read a number with a fraction or an exponent. -/
def readDecimal? (text : Text) : Option DecimalParts := do
  let (negative, rest) := splitSign text
  let isMark (c : Char) : Bool := c == 'e' || c == 'E'
  let mantissa := rest.takeWhile fun c => !isMark c
  let exponent ← match rest.dropWhile fun c => !isMark c with
    | [] => some 0
    | _ :: more => readExponent? more
  match Text.splitFirst? ['.'] mantissa with
  | some (whole, fraction) => do
    let whole ← wholeDigits? whole
    let fraction ← ungrouped? Char.isDigit fraction
    some ⟨negative, whole ++ fraction, fraction.length, exponent⟩
  | none => do
    let whole ← wholeDigits? mantissa
    if mantissa.length < rest.length then some ⟨negative, whole, 0, exponent⟩ else none

/-- The value of a number with a fraction or an exponent. Exponents are cut to
a range outside of which every number is zero or too large. -/
def DecimalParts.value (parts : DecimalParts) (span : Span) : Value :=
  let n := numberOf 10 parts.digits
  let limit : Int := 400 + parts.digits.length
  let exponent := max (-limit) (min limit (parts.exponent - parts.places))
  let sign : Text := if parts.negative then ['-'] else []
  match Double.ofRatio? ((⟨n, 1⟩ : Ratio).mul (Ratio.power 10 exponent)) with
  | some d => .decimal (sign ++ d.shortest.positional) span
  | none =>
    let fault : Fault := ⟨.decimalTooLarge, .scalar span⟩
    .refused fault (some fault) span

/-- Infinity, or what is no number. -/
def readSpecial? (text : Text) : Option Text :=
  let (negative, rest) := splitSign text
  if rest = "inf" then some (if negative then "-inf" else "inf")
  else if rest = "nan" then some "NaN"
  else none

/-- The number of so many digits at the start of a text, and the rest. -/
def readDigits? (count : Nat) (text : Text) : Option (Nat × Text) := do
  let digits ← if (text.take count).length = count then ungrouped? Char.isDigit (text.take count) else none
  if digits.length = count then some (numberOf 10 digits, text.drop count) else none

/-- The rest of a text behind a character. -/
def after? (c : Char) (text : Text) : Option Text :=
  if text.head? = some c then some text.tail else none

/-- How many days a month has. -/
def daysIn (year month : Nat) : Nat :=
  if month = 2 then if year % 4 = 0 ∧ (year % 100 ≠ 0 ∨ year % 400 = 0) then 29 else 28
  else if [4, 6, 9, 11].contains month then 30
  else 31

/-- The rest of a text behind a date. -/
def afterDate? (text : Text) : Option Text := do
  let (year, text) ← readDigits? 4 text
  let text ← after? '-' text
  let (month, text) ← readDigits? 2 text
  let text ← after? '-' text
  let (day, text) ← readDigits? 2 text
  if 1 ≤ month ∧ month ≤ 12 ∧ 1 ≤ day ∧ day ≤ daysIn year month then some text else none

/-- The rest of a text behind the fraction of a second, if there is one. -/
def afterFraction? (text : Text) : Option Text :=
  match text with
  | '.' :: rest => if (rest.takeWhile Char.isDigit).isEmpty then none else some (rest.dropWhile Char.isDigit)
  | _ => some text

/-- The rest of a text behind hours and minutes. -/
def afterMinutes? (text : Text) : Option Text := do
  let (hour, text) ← readDigits? 2 text
  let text ← after? ':' text
  let (minute, text) ← readDigits? 2 text
  if hour ≤ 23 ∧ minute ≤ 59 then some text else none

/-- The rest of a text behind a time of day. -/
def afterTime? (text : Text) : Option Text := do
  let text ← afterMinutes? text
  match text with
  | ':' :: rest => do
    let (second, rest) ← readDigits? 2 rest
    if second ≤ 60 then afterFraction? rest else none
  | _ => some text

/-- Whether a text is the difference of a local time to universal time, or
nothing. -/
def isOffset (text : Text) : Bool :=
  match text with
  | [] => true
  | ['Z'] | ['z'] => true
  | sign :: rest => (sign == '+' || sign == '-') && afterMinutes? rest == some []

/-- Whether a text is a date, a time or both. -/
def isMoment (text : Text) : Bool :=
  match afterDate? text with
  | some [] => true
  | some (mark :: rest) =>
    (mark == 'T' || mark == 't' || mark == ' ') && (afterTime? rest).any isOffset
  | none => afterTime? text == some []

/-- The value of a word. -/
def wordValue? (word : Text) (span : Span) : Option Value :=
  if word = "true" then some (.flag true span)
  else if word = "false" then some (.flag false span)
  else
    match readSpecial? word, readPrefixed? word span, readInteger? word, readDecimal? word with
    | some special, _, _, _ => some (.decimal special span)
    | _, some value, _, _ => some value
    | _, _, some n, _ => some (integerValue n span)
    | _, _, _, some parts => some (parts.value span)
    | _, _, _, _ => if isMoment word then some (.table [] span) else none

end InterfaceSchema.Toml
