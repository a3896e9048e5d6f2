import InterfaceSchema.Syntax.Token

/-!
# Patterns of tokens

Of most of a source only the extent matters: where a statement, an expression
or a list of parameters ends. Their grammar is given by patterns. A pattern is
followed from a token on and either fails or says where it ends; of several
alternatives the first one that can be followed counts. `Part` names the
pieces of the grammar, so that patterns can refer to each other and to
themselves.
-/

namespace InterfaceSchema

/-- Pieces of the grammar. -/
inductive Part where
  -- types and signatures
  | typeParameters | typeParameter | typeArguments
  | parameters | parameter | typing | result | signature
  | functionType | constructorType | queriedValue | importedType | templateType
  | indexClause | mappedClause | callMember
  -- expressions
  | expressions | expression | conditional | operand | application | callee | primary | suffix
  | arrow | arrowBody | arguments | argument | array | object | property | method
  | key | computedKey | function | classExpression
  | target | objectTarget | propertyTarget | arrayTarget | elementTarget
  | substitution | decorator | decoration
  -- classes
  | classHead | classBody | classMember | methodMember | abstractMember | fieldMember
  -- statements
  | block | statement | declaration | namedStatement | simpleStatement
  | bindings | binding | interfaceBody | typeName | loopHead | caseClause | enumMember
  | importing | imported | specifier | origin | exporting | exportedNames
deriving DecidableEq, Repr

/-- Patterns of tokens. -/
inductive Pattern where
  /-- No token at all. -/
  | nothing
  /-- A pattern that is never followed. -/
  | never
  /-- This word. -/
  | word (text : String)
  /-- Any word but these. -/
  | wordBut (words : List String)
  /-- This symbol. -/
  | symbol (text : String)
  /-- Symbols that make up this text with nothing between them. -/
  | joined (text : String)
  /-- Any token of this kind. -/
  | kind (kind : TokenKind)
  | both (first second : Pattern)
  | either (first second : Pattern)
  /-- As often as it can be followed. -/
  | many (each : Pattern)
  /-- The second pattern where the first one could be followed, and the third
  one elsewhere. -/
  | whenever (test yes no : Pattern)
  /-- No token, where a statement could not end without a semicolon after a
  type. -/
  | sameLine
  /-- No token, where a statement could not end without a semicolon after an
  expression. -/
  | sameExpression
  /-- No token; from here on the expression read last can be assigned to, or
  cannot. -/
  | assignable (can : Bool)
  /-- No token, where the expression read last can be assigned to. -/
  | assigned
  /-- The pattern inside of brackets, where lines do not matter. -/
  | inside (pattern : Pattern)
  /-- The pattern where a new line may end a statement. -/
  | lined (pattern : Pattern)
  /-- A piece of the grammar. -/
  | part (part : Part)
  /-- A type. -/
  | type
  /-- A type that an expression is converted to. -/
  | cast
  /-- A type without operators between types. -/
  | tightType
  /-- The members of an object type or interface from behind the opening brace
  on. -/
  | members
  /-- A regular expression. -/
  | regex
  /-- A template with these substitutions. -/
  | template (piece : Part)
  /-- The rest of a template, from a place in its text on. -/
  | templateRest (piece : Part)
  /-- The end of a statement: a semicolon, or a place where none is needed. -/
  | semicolon
  /-- The end of a statement that needs no semicolon. -/
  | settled
deriving Repr

namespace Pattern

/-- One pattern after the other. -/
def sequence : List Pattern → Pattern
  | [] => .nothing
  | [last] => last
  | first :: rest => .both first (sequence rest)

/-- The first pattern that can be followed. -/
def oneOf : List Pattern → Pattern
  | [] => .never
  | [last] => last
  | first :: rest => .either first (oneOf rest)

/-- The pattern, if it can be followed. -/
def maybe (pattern : Pattern) : Pattern := .either pattern .nothing

/-- Patterns one after the other, if they can be followed. -/
def optionally (patterns : List Pattern) : Pattern := maybe (sequence patterns)

/-- No token, where the pattern could be followed. -/
def ahead (pattern : Pattern) : Pattern := .whenever pattern .nothing .never

/-- No token, where the pattern could not be followed. -/
def notAhead (pattern : Pattern) : Pattern := .whenever pattern .never .nothing

/-- One or more with commas between them. -/
def list (each : Pattern) : Pattern := .both each (.many (.both (.symbol ",") each))

/-- One of these words. -/
def words (texts : List String) : Pattern := oneOf (texts.map .word)

/-- One of these symbols, each as the symbols it is made up of. -/
def operators (texts : List String) : Pattern := oneOf (texts.map .joined)

/-- Any word. -/
def anyWord : Pattern := .kind .word

/-- Patterns between brackets. -/
def enclosed (opening closing : String) (patterns : List Pattern) : Pattern :=
  .both (.symbol opening) (.both (.inside (sequence patterns)) (.symbol closing))

/-- A pattern for each of several tests, the first one that holds. -/
def cases : List (Pattern × Pattern) → Pattern → Pattern
  | [], last => last
  | (test, yes) :: rest, last => .whenever test yes (cases rest last)

end Pattern

/-- How far a pattern was followed: a place between tokens. -/
structure Reach where
  /-- Where the last token before it ends. -/
  stop : Nat
  /-- The tokens behind it. -/
  tokens : List Token
  /-- Whether the expression read last can be assigned to. -/
  assignable : Bool

namespace Reach

/-- The place before the first of the tokens. -/
def before (tokens : List Token) : Reach := ⟨(tokens.head?.map Token.start).getD 0, tokens, false⟩

/-- Over the next token, if it is accepted. -/
def take (reach : Reach) (accept : Token → Bool) : Option Reach :=
  match reach.tokens with
  | [] => none
  | token :: rest => if accept token then some ⟨token.stop, rest, reach.assignable⟩ else none

/-- Over symbols that make up a text with nothing between them. -/
def takeJoined (reach : Reach) (text : Text) : Option Reach := go text reach.stop reach.tokens true
where
  /-- Over the symbols for the rest of the text; only the first one may stand
  apart from the token before. -/
  go (text : Text) (stop : Nat) : List Token → Bool → Option Reach
    | [], _ => none
    | token :: rest, apart =>
      if token.kind == .symbol && token.text.isPrefixOf text && (apart || token.start == stop) then
        match text.drop token.text.length with
        | [] => some ⟨token.stop, rest, reach.assignable⟩
        | left => go left token.stop rest false
      else none

/-- Over the end of a statement that needs no semicolon: comments beside the
last token belong to it. -/
def settle (reach : Reach) : Option Reach :=
  match reach.tokens with
  | [] => none
  | token :: rest =>
    if token.endsStatement then
      some
        ⟨(token.gap.beside.getLast?.map Comment.stop).getD reach.stop,
          { token with gap := { token.gap with beside := [] } } :: rest, reach.assignable⟩
    else none

/-- Over the end of a statement: a semicolon, or where none is needed. -/
def endStatement (reach : Reach) : Option Reach :=
  (reach.take fun token => token.isSymbol ";").or reach.settle

end Reach

end InterfaceSchema
