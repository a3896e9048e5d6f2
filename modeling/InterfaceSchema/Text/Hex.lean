import InterfaceSchema.Text.Basic

/-!
# Hexadecimal digits
-/

namespace InterfaceSchema.Text

/-- The value of a hexadecimal digit. -/
def hexDigit? (c : Char) : Option Nat :=
  if '0' ≤ c ∧ c ≤ '9' then some (c.toNat - '0'.toNat)
  else if 'a' ≤ c ∧ c ≤ 'f' then some (c.toNat - 'a'.toNat + 10)
  else if 'A' ≤ c ∧ c ≤ 'F' then some (c.toNat - 'A'.toNat + 10)
  else none

/-- The number that goes on with `count` hexadecimal digits from the start of
a text. -/
def hexNumberFrom? (value : Nat) : Nat → Text → Option Nat
  | 0, _ => some value
  | count + 1, c :: rest => do
    let digit ← hexDigit? c
    hexNumberFrom? (16 * value + digit) count rest
  | _, [] => none

/-- The number that the first `count` characters, hexadecimal digits, stand
for. -/
def hexNumber? (count : Nat) (text : Text) : Option Nat := hexNumberFrom? 0 count text

end InterfaceSchema.Text
