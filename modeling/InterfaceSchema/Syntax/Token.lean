import InterfaceSchema.Text.Blank

/-!
# Tokens

A source is cut into tokens; the blanks and comments between two tokens are
kept with the second one as its gap. A gap knows whether a line feed outside
of comments stands in it, because that may end a statement, and which
comments come before and after the first such line feed. The last token is
the empty finishing token, unless the source is cut only up to a template or a
place where no token stands.
-/

namespace InterfaceSchema

/-- A comment with its delimiters. -/
structure Comment where
  text : Text
  start : Nat
deriving DecidableEq, Repr

namespace Comment

/-- Where the comment ends. -/
def stop (comment : Comment) : Nat := comment.start + Text.byteLength comment.text

/-- Where the comment stands. -/
def span (comment : Comment) : Span := ⟨comment.start, comment.stop⟩

/-- Whether the comment opens like a documentation comment. -/
def isDoc (comment : Comment) : Bool := "/**".toList.isPrefixOf comment.text

end Comment

/-- What stands between a token and the one before it. -/
structure Gap where
  /-- Comments before the first line feed. -/
  beside : List Comment
  /-- Whether there is a line feed outside of comments. -/
  fresh : Bool
  /-- Comments after the first line feed. -/
  above : List Comment
deriving DecidableEq, Repr

namespace Gap

/-- Nothing in between. -/
def none : Gap := ⟨[], false, []⟩

/-- One comment more at the end. -/
def add (gap : Gap) (comment : Comment) : Gap :=
  if gap.fresh then { gap with above := gap.above ++ [comment] }
  else { gap with beside := gap.beside ++ [comment] }

/-- A line feed more at the end. -/
def newline (gap : Gap) : Gap := { gap with fresh := true }

/-- All comments in order. -/
def comments (gap : Gap) : List Comment := gap.beside ++ gap.above

end Gap

/-- Kinds of tokens. -/
inductive TokenKind where
  /-- An identifier or any word of the language. -/
  | word
  /-- A name after a number sign. -/
  | privateName
  | number
  | string
  /-- Punctuation and operators; also the quote that opens a template and the
  slash that opens a regular expression. -/
  | symbol
  /-- A first line that names an interpreter. -/
  | interpreter
  /-- The end of the source. -/
  | finish
  /-- Text that is no token, with everything after it. -/
  | broken
deriving DecidableEq, Repr

/-- A token with the gap before it. -/
structure Token where
  kind : TokenKind
  text : Text
  start : Nat
  gap : Gap
deriving DecidableEq, Repr

namespace Token

/-- Where the token ends. -/
def stop (token : Token) : Nat := token.start + Text.byteLength token.text

/-- Where the token stands. -/
def span (token : Token) : Span := ⟨token.start, token.stop⟩

/-- Whether the token is this word. -/
def isWord (token : Token) (word : String) : Bool :=
  token.kind == .word && token.text == word.toList

/-- Whether the token is this symbol. -/
def isSymbol (token : Token) (symbol : String) : Bool :=
  token.kind == .symbol && token.text == symbol.toList

/-- The token behind the comments of its gap, all without blanks. -/
def compact (token : Token) : Text :=
  (token.gap.comments.flatMap fun comment => Text.compact comment.text) ++ token.text

/-- Whether the token starts like one of the operators `in` and `instanceof`.
Only letters are looked at, so a word such as `in_` does as well. -/
def startsMembership (token : Token) : Bool :=
  match token.text with
  | 'i' :: 'n' :: rest =>
    match rest.head? with
    | none => true
    | some c =>
      !c.isAlpha ||
        ("stanceof".toList.isPrefixOf rest && !(rest.drop 8).head?.any Char.isAlpha)
  | _ => false

/-- Whether the token goes on with what stands before it, even on a new
line. -/
def continues (token : Token) : Bool :=
  match token.kind with
  | .word => token.startsMembership
  | .number => token.text.head? == some '.'
  | .symbol =>
    match token.text with
    | c :: _ =>
      "`,.;*%><=?^|&/:".toList.contains c || token.isSymbol "+" || token.isSymbol "-" ||
        "!=".toList.isPrefixOf token.text
    | [] => false
  | _ => false

/-- Whether a type or list of members may end before the token without a
semicolon: at the end of the source, or on a new line. -/
def endsType (token : Token) : Bool :=
  token.kind == .finish || (token.gap.fresh && !token.continues)

/-- Whether an expression may end before the token without a semicolon. A
bracket on a new line goes on with the expression. -/
def endsExpression (token : Token) : Bool :=
  token.endsType && !token.isSymbol "(" && !token.isSymbol "["

/-- Whether a statement may end before the token without a semicolon: also
the brace that closes the block around it ends it. -/
def endsStatement (token : Token) : Bool := token.endsType || token.isSymbol "\x7d"

end Token

end InterfaceSchema
