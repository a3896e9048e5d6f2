import InterfaceSchema.Syntax.Digits
import InterfaceSchema.Syntax.Token

/-!
# Cutting a source into tokens

Words take every character that is no blank, control character, digit or
punctuation, and digits after the first; a character may be written as an
escape. Strings run to their closing quote, and escapes inside them have to be
well formed. Where a regular expression or the text of a template stands is
known only to the grammar: cutting takes their first character as a symbol,
and the grammar cuts again behind them, so that nothing is cut behind the quote
that opens a template. A place where no token stands ends the list with a
broken token.
-/

namespace InterfaceSchema.Scan

/-- Blanks between tokens. -/
def isBlank (c : Char) : Bool :=
  let n := c.toNat
  (9 ≤ n && n ≤ 13) || n == 0x20 || n == 0x85 || n == 0xA0 || n == 0x1680 ||
    (0x2000 ≤ n && n ≤ 0x200B) || n == 0x2028 || n == 0x2029 || n == 0x202F || n == 0x205F ||
    n == 0x2060 || n == 0x3000 || n == 0xFEFF

/-- Punctuation, which no word contains. -/
def isPunctuation (c : Char) : Bool := ":;`\"'@#.,|^&<=>+-*/\\%?!~()[]\x7b\x7d".toList.contains c

/-- Characters a word starts with. -/
def isWordStart (c : Char) : Bool :=
  !(c.toNat < 0x20 || isBlank c || c.isDigit || isPunctuation c)

/-- Characters a word goes on with. -/
def isWordPart (c : Char) : Bool := c.isDigit || isWordStart c

/-- Characters that end a comment that runs to the end of its line. -/
def endsLine (c : Char) : Bool :=
  c == '\n' || c == '\r' || c.toNat == 0x2028 || c.toNat == 0x2029

/-- Hexadecimal digits. -/
def isHexDigit (c : Char) : Bool := Digits.isDigitOf 16 c

/-- Cut after the characters that satisfy `p`. -/
def cut (p : Char → Bool) (text : Text) : Text × Text := (text.takeWhile p, text.dropWhile p)

/-- A character written as an escape with its code, and what follows it. -/
def codeEscape? : Text → Option (Text × Text)
  | '\\' :: 'u' :: '\x7b' :: rest =>
    match cut isHexDigit rest with
    | ([], _) => none
    | (digits, '\x7d' :: left) => some ('\\' :: 'u' :: '\x7b' :: (digits ++ ['\x7d']), left)
    | _ => none
  | '\\' :: 'u' :: a :: b :: c :: d :: rest =>
    if [a, b, c, d].all isHexDigit then some (['\\', 'u', a, b, c, d], rest) else none
  | _ => none

/-- A character of a word that satisfies `p`, plain or as an escape, and what
follows it. -/
def letter? (p : Char → Bool) : Text → Option (Text × Text)
  | [] => none
  | c :: rest => if p c then some ([c], rest) else codeEscape? (c :: rest)

/-- The further characters of a word, and what follows them. -/
def wordRest : Nat → Text → Text × Text
  | 0, text => ([], text)
  | fuel + 1, text =>
    match letter? isWordPart text with
    | some (letter, rest) =>
      let (more, left) := wordRest fuel rest
      (letter ++ more, left)
    | none => ([], text)

/-- A word, and what follows it. -/
def word? (text : Text) : Option (Text × Text) :=
  (letter? isWordStart text).map fun (letter, rest) =>
    let (more, left) := wordRest rest.length rest
    (letter ++ more, left)

/-- Whether what stands after a backslash is an escape: two hexadecimal
digits after `x`, four or a braced number after `u`, or any other
character. -/
def isEscape : Text → Bool
  | [] => false
  | 'x' :: rest => (rest.takeWhile isHexDigit).length ≥ 2
  | 'u' :: rest => (codeEscape? ('\\' :: 'u' :: rest)).isSome
  | _ => true

/-- A string up to and with its closing quote, and what follows it. -/
def stringBody (quote : Char) : Text → Option (Text × Text)
  | [] => none
  | '\\' :: '\r' :: '\n' :: rest =>
    (stringBody quote rest).map fun (body, more) => ('\\' :: '\r' :: '\n' :: body, more)
  | '\\' :: c :: rest =>
    if isEscape (c :: rest) then
      (stringBody quote rest).map fun (body, more) => ('\\' :: c :: body, more)
    else none
  | c :: rest =>
    if c = quote then some ([c], rest)
    else if c = '\n' ∨ c = '\r' ∨ c = '\\' then none
    else (stringBody quote rest).map fun (body, more) => (c :: body, more)

/-- The text of a template up to and with the quote that closes it or the
brace that opens a substitution, and what follows it. -/
def templateText : Text → Option (Text × Text)
  | [] => none
  | '`' :: rest => some (['`'], rest)
  | '$' :: '\x7b' :: rest => some (['$', '\x7b'], rest)
  | '\\' :: c :: rest =>
    if isEscape (c :: rest) then
      (templateText rest).map fun (body, more) => ('\\' :: c :: body, more)
    else none
  | c :: rest => (templateText rest).map fun (body, more) => (c :: body, more)

/-- A regular expression up to and with its closing slash, and what follows
it; `bracketed` inside a character class. -/
def regexBody (bracketed : Bool) : Text → Option (Text × Text)
  | [] => none
  | '\\' :: c :: rest =>
    if c = '\n' then none
    else (regexBody bracketed rest).map fun (body, more) => ('\\' :: c :: body, more)
  | c :: rest =>
    if c = '\n' ∨ c = '\r' then none
    else if c = '/' ∧ bracketed = false then some ([c], rest)
    else
      let inside := if c = '[' then true else if c = ']' then false else bracketed
      (regexBody inside rest).map fun (body, more) => (c :: body, more)

/-- A regular expression with its slashes and flags, and what follows it. -/
def regex? : Text → Option (Text × Text)
  | '/' :: rest =>
    (regexBody false rest).map fun (body, more) =>
      let (flags, left) := cut (fun c => 'a' ≤ c && c ≤ 'z') more
      ('/' :: (body ++ flags), left)
  | _ => none

/-- A block comment up to and with its end, and what follows it. -/
def blockComment : Text → Option (Text × Text)
  | [] => none
  | '*' :: '/' :: rest => some (['*', '/'], rest)
  | c :: rest => (blockComment rest).map fun (body, more) => (c :: body, more)

/-- Symbols of more than one character. -/
def longSymbols : List Text :=
  ["===", "!==", "...", "=>", "==", "!=", "++", "--"].map String.toList

/-- A symbol and what follows it. -/
def symbol? (text : Text) : Option (Text × Text) :=
  match longSymbols.find? fun long => long.isPrefixOf text with
  | some long => some (long, text.drop long.length)
  | none =>
    match text with
    | c :: rest =>
      if ":;@.,|^&<=>+-*/%?!~()[]`\x7b\x7d".toList.contains c then some ([c], rest) else none
    | [] => none

/-- The token at the front of a text that starts with no blank and no
comment: its kind, its text and what follows it. Only the first token of a
source can name an interpreter. -/
def lexeme? (first : Bool) (text : Text) : Option (TokenKind × Text × Text) :=
  match text with
  | [] => none
  | c :: rest =>
    if c.isDigit || (c == '.' && rest.head?.any Char.isDigit) then
      (Digits.read? text).map fun (found, left) => (.number, found, left)
    else if c = '\'' ∨ c = '"' then
      (stringBody c rest).map fun (body, left) => (.string, c :: body, left)
    else if c = '#' then
      if first && rest.head? == some '!' then
        let (line, left) := cut (fun d => d != '\n') text
        some (.interpreter, line, left)
      else (word? rest).map fun (found, left) => (.privateName, c :: found, left)
    else
      match word? text with
      | some (found, left) => some (.word, found, left)
      | none => (symbol? text).map fun (found, left) => (.symbol, found, left)

/-- The tokens of a text that starts at `position` with the gap read so far,
up to the quote that opens a template. -/
def tokensFrom : Nat → Bool → Gap → Nat → Text → List Token
  | 0, _, _, _, _ => []
  | fuel + 1, first, gap, position, text =>
    match text with
    | [] => [⟨.finish, [], position, gap⟩]
    | '/' :: '/' :: rest =>
      let (body, left) := cut (fun c => !endsLine c) rest
      let comment : Comment := ⟨'/' :: '/' :: body, position⟩
      tokensFrom fuel first (gap.add comment) comment.stop left
    | '/' :: '*' :: rest =>
      match blockComment rest with
      | some (body, left) =>
        let comment : Comment := ⟨'/' :: '*' :: body, position⟩
        tokensFrom fuel first (gap.add comment) comment.stop left
      | none => [⟨.broken, text, position, gap⟩]
    | c :: rest =>
      if isBlank c then
        tokensFrom fuel first (if c = '\n' then gap.newline else gap) (position + c.utf8Size) rest
      else
        match lexeme? first text with
        | some (kind, found, left) =>
          let token : Token := ⟨kind, found, position, gap⟩
          if found = ['`'] then [token]
          else token :: tokensFrom fuel false .none token.stop left
        | none => [⟨.broken, text, position, gap⟩]

end Scan

namespace Token

/-- The tokens of a source up to its first template. -/
def scan (source : Text) : List Token := Scan.tokensFrom (source.length + 1) true .none 0 source

/-- The tokens of the rest of a source, which starts at `position` behind
another token, up to the next template. -/
def scanRest (position : Nat) (rest : Text) : List Token :=
  Scan.tokensFrom (rest.length + 1) false .none position rest

end Token

end InterfaceSchema
