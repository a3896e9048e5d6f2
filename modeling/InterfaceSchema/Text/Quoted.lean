import InterfaceSchema.Text.Basic
import InterfaceSchema.Text.Letter

/-!
# Quoted text and property keys

A text is written between single quotes with a backslash before each single
quote and each backslash. Reading removes the outer characters and resolves
escapes: `\n` and `\t` are a line feed and a tab, any other escaped character
stands for itself. A property key is written bare when it is an identifier.
-/

namespace InterfaceSchema.Text

/-- The text with a backslash before every single quote and backslash. -/
def escape : Text → Text
  | [] => []
  | c :: rest => if c = '\\' ∨ c = '\'' then '\\' :: c :: escape rest else c :: escape rest

/-- The text as a single-quoted literal. -/
def quote (text : Text) : Text := '\'' :: (escape text ++ ['\''])

/-- Escapes resolved; a backslash at the end is dropped. -/
def unescape : Text → Text
  | [] => []
  | '\\' :: [] => []
  | '\\' :: c :: rest => (if c = 'n' then '\n' else if c = 't' then '\t' else c) :: unescape rest
  | c :: rest => c :: unescape rest

/-- The text a quoted literal stands for. -/
def unquote (literal : Text) : Text := unescape literal.tail.dropLast

/-- The text without its quotes, if it starts and ends with the same kind of
quote; escapes inside stay as they are. -/
def stripQuotes (text : Text) : Text :=
  match text.head?, text.getLast? with
  | some first, some last =>
    if 2 ≤ text.length ∧ (first = '"' ∨ first = '\'') ∧ last = first then text.tail.dropLast
    else text
  | _, _ => text

/-- Whether the text is an identifier: letters, numbers, `_` and `$`, the
first of them no number. -/
def isIdentifier : Text → Bool
  | [] => false
  | c :: rest =>
    (c == '_' || c == '$' || isAlphabetic c) &&
      rest.all fun d => d == '_' || d == '$' || isAlphanumeric d

/-- A property name as an object key: bare if it is an identifier, quoted
otherwise. -/
def propertyKey (name : Text) : Text := if isIdentifier name then name else quote name

/-- Reading back an escaped text gives the text: only quotes and backslashes
are escaped, and neither of them names a control character. -/
theorem unescape_escape (text : Text) : unescape (escape text) = text := by
  induction text with
  | nil => rfl
  | cons c rest ih =>
    by_cases h : c = '\\' ∨ c = '\''
    · rcases h with rfl | rfl <;> simp [escape, unescape, ih]
    · rw [not_or] at h
      simp only [escape, h, or_self, if_false]
      rw [unescape.eq_4 _ _ (fun hc _ => h.1 hc) (fun _ _ hc _ => h.1 hc), ih]

/-- A quoted text stands for the text. -/
theorem unquote_quote (text : Text) : unquote (quote text) = text := by
  rw [unquote, quote, List.tail_cons, List.dropLast_concat, unescape_escape]

end InterfaceSchema.Text
