import InterfaceSchema.Text.Basic
import InterfaceSchema.Text.HiddenRanges
import InterfaceSchema.Text.Letter

/-!
# Texts shown in messages

A message shows a text between double quotes. Quotes, backslashes and
characters without a look of their own are escaped, the latter by their code
points in braces.
-/

namespace InterfaceSchema.Text

/-- Whether a character has no look of its own. -/
def isHidden (c : Char) : Bool :=
  if c.toNat < 128 then c.toNat < 32 || c.toNat == 127 else inRanges hiddenRanges c.toNat

/-- A code point as an escape. -/
def codePointEscape (c : Char) : Text :=
  "\\u\x7b" ++ (Nat.toDigits 16 c.toNat ++ "\x7d".toList)

/-- A character inside double quotes. -/
def showChar (c : Char) : Text :=
  match c with
  | '\x00' => "\\0"
  | '\t' => "\\t"
  | '\r' => "\\r"
  | '\n' => "\\n"
  | '"' => "\\\""
  | '\\' => "\\\\"
  | c => if isHidden c then codePointEscape c else [c]

/-- The text between double quotes. -/
def shown (text : Text) : Text := '"' :: (text.flatMap showChar ++ ['"'])

end InterfaceSchema.Text
