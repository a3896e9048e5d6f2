import InterfaceSchema.Syntax.Scan
import InterfaceSchema.Syntax.Grammar

/-!
# Printed types

How a type is printed, as tokens with blanks between them, and which types
mean when they are read what they mean as trees: words are spelled as words,
numbers as numbers, and a list of types stands in parentheses where it is part
of a tighter one. What is read has other spans than what was printed.
-/

namespace InterfaceSchema

/-- A token of a printed text, or a blank between two tokens. -/
inductive Piece where
  | token (kind : TokenKind) (text : Text)
  | blank
deriving DecidableEq, Repr

namespace Piece

/-- The text of the piece. -/
def text : Piece → Text
  | token _ text => text
  | blank => " "

/-- A symbol. -/
def sign (text : String) : Piece := .token .symbol text.toList

/-- A word of the language. -/
def word (text : String) : Piece := .token .word text.toList

/-- The text that pieces make up. -/
def join (pieces : List Piece) : Text := pieces.flatMap text

/-- Lists of pieces with others between them. -/
def joined (between : List Piece) : List (List Piece) → List Piece
  | [] => []
  | first :: rest => first ++ rest.flatMap fun part => between ++ part

/-- A number with its sign. -/
def number : Text → List Piece
  | '-' :: digits => [sign "-", .token .number digits]
  | digits => [.token .number digits]

/-- A literal. -/
def literal : Literal → List Piece
  | .string value => [.token .string (Text.quote value)]
  | .number spelling => number spelling
  | .boolean true => [word "true"]
  | .boolean false => [word "false"]

/-- A name with dots between its parts. -/
def dotted (name : Text) : List Piece :=
  joined [sign "."] ((name.splitOn '.').map fun part => [.token .word part])

/-- Whether a property name is spelled with quotes. -/
def isQuoted (name : Text) : Bool := name.head? == some '\'' || name.head? == some '"'

/-- The name of a property as it is spelled. -/
def key (name : Text) : Piece := .token (if isQuoted name then .string else .word) name

/-- What marks a member as read-only. -/
def readonly (isReadonly : Bool) : List Piece :=
  if isReadonly then [word "readonly", blank] else []

/-- A property up to its type. -/
def head (head : PropertyHead) : List Piece :=
  readonly head.readonly ++ [key head.name] ++ if head.optional then [sign "?"] else []

end Piece

open Piece

mutual

/-- The pieces of a printed type. -/
def TypeExpr.pieces : TypeExpr → List Piece
  | .keyword keyword _ => [.token .word keyword.word]
  | .literal literal _ => Piece.literal literal
  | .reference name arguments _ =>
    dotted name ++ match TypeExpr.allPieces arguments with
      | [] => []
      | parts => [sign "<"] ++ joined [sign ",", blank] parts ++ [sign ">"]
  | .array item _ => TypeExpr.pieces item ++ [sign "[", sign "]"]
  | .tuple items _ =>
    [sign "["] ++ joined [sign ",", blank] (TypeExpr.allPieces items) ++ [sign "]"]
  | .union parts _ => joined [blank, sign "|", blank] (TypeExpr.allPieces parts)
  | .intersection parts _ => joined [blank, sign "&", blank] (TypeExpr.allPieces parts)
  | .object members _ => [sign "\x7b"] ++ Member.allPieces members ++ [blank, sign "\x7d"]
  | .paren inner _ => [sign "("] ++ TypeExpr.pieces inner ++ [sign ")"]
  | .unsupported _ => []

/-- The pieces of printed types, one list for each. -/
def TypeExpr.allPieces : List TypeExpr → List (List Piece)
  | [] => []
  | type :: rest => TypeExpr.pieces type :: TypeExpr.allPieces rest

/-- The pieces of a printed member, a property or an index signature. -/
def Member.pieces : Member → List Piece
  | .property ⟨head, some type⟩ =>
    Piece.head head ++ [sign ":", blank] ++ TypeExpr.pieces type ++ [sign ";"]
  | .property ⟨head, none⟩ => Piece.head head ++ [sign ";"]
  | .index keys value isReadonly _ =>
    readonly isReadonly ++ [sign "[", word "key", sign ":", blank] ++ TypeExpr.pieces keys ++
      [sign "]", sign ":", blank] ++ TypeExpr.pieces value ++ [sign ";"]
  | .mapped _ | .other _ => []

/-- The pieces of printed members, each behind a blank. -/
def Member.allPieces : List Member → List Piece
  | [] => []
  | member :: rest => blank :: Member.pieces member ++ Member.allPieces rest

end

/-- The type as it is printed. -/
def TypeExpr.print (type : TypeExpr) : Text := Piece.join type.pieces

/-- A text that is a word. -/
def IsWord (text : Text) : Prop := Scan.word? text = some (text, [])

/-- A text that is the spelling of a number without its sign. -/
def IsNumeral (text : Text) : Prop := Digits.read? text = some (text, [])

/-- A text that is a string with its quotes. -/
def IsString : Text → Prop
  | [] => False
  | quote :: body =>
    (quote = '\'' ∨ quote = '"') ∧ Scan.stringBody quote body = some (body, [])

/-- A literal with a spelling: a string without line ends, or a number with at
most a minus sign before its digits. -/
def Literal.Printable : Literal → Prop
  | .string value => '\n' ∉ value ∧ '\r' ∉ value
  | .number spelling => ∃ digits, (spelling = digits ∨ spelling = '-' :: digits) ∧ IsNumeral digits
  | .boolean _ => True

/-- A name of a type: words with dots between them, the first of which neither
names a keyword type nor starts a type of another kind. -/
structure IsTypeName (name : Text) : Prop where
  words : ∀ part ∈ name.splitOn '.', IsWord part
  first : ∀ part ∈ (name.splitOn '.').head?, ∀ word ∈ Grammar.plainWords ++ Grammar.typeWords,
    part ≠ word.toList
  other : Keyword.ofWord? name = none

/-- A property name is a word or a string, and no comment documents it. -/
structure PropertyHead.Printable (head : PropertyHead) : Prop where
  name : if isQuoted head.name then IsString head.name else IsWord head.name
  docs : head.docs = none

namespace TypeExpr

/-- Whether the type is a union. -/
def isUnion : TypeExpr → Bool
  | union .. => true
  | _ => false

/-- Whether the type is a union or an intersection. -/
def isList : TypeExpr → Bool
  | union .. | intersection .. => true
  | _ => false

end TypeExpr

mutual

/-- A type that is read as it was printed. -/
def TypeExpr.Printable : TypeExpr → Prop
  | .keyword .. => True
  | .literal literal _ => literal.Printable
  | .reference name arguments _ => IsTypeName name ∧ TypeExpr.AllPrintable arguments
  | .array item _ => item.isList = false ∧ TypeExpr.Printable item
  | .tuple items _ => TypeExpr.AllPrintable items
  | .union parts _ =>
    2 ≤ parts.length ∧ (∀ part ∈ parts, part.isUnion = false) ∧ TypeExpr.AllPrintable parts
  | .intersection parts _ =>
    2 ≤ parts.length ∧ (∀ part ∈ parts, part.isList = false) ∧ TypeExpr.AllPrintable parts
  | .object members _ => Member.AllPrintable members
  | .paren inner _ => TypeExpr.Printable inner
  | .unsupported _ => False

/-- Types that are read as they were printed. -/
def TypeExpr.AllPrintable : List TypeExpr → Prop
  | [] => True
  | type :: rest => TypeExpr.Printable type ∧ TypeExpr.AllPrintable rest

/-- Members that are read as they were printed. -/
def Member.AllPrintable : List Member → Prop
  | [] => True
  | .property ⟨head, some type⟩ :: rest =>
    head.Printable ∧ TypeExpr.Printable type ∧ Member.AllPrintable rest
  | .property ⟨head, none⟩ :: rest => head.Printable ∧ Member.AllPrintable rest
  | .index key value _ _ :: rest =>
    TypeExpr.Printable key ∧ TypeExpr.Printable value ∧ Member.AllPrintable rest
  | .mapped _ :: _ | .other _ :: _ => False

end

/-- The start of any text, as a span. -/
def Span.nowhere : Span := ⟨0, 0⟩

mutual

/-- The type without its place in a source. -/
def TypeExpr.unplaced : TypeExpr → TypeExpr
  | .keyword keyword _ => .keyword keyword .nowhere
  | .literal literal _ => .literal literal .nowhere
  | .reference name arguments _ => .reference name (TypeExpr.allUnplaced arguments) .nowhere
  | .array item _ => .array (TypeExpr.unplaced item) .nowhere
  | .tuple items _ => .tuple (TypeExpr.allUnplaced items) .nowhere
  | .union parts _ => .union (TypeExpr.allUnplaced parts) .nowhere
  | .intersection parts _ => .intersection (TypeExpr.allUnplaced parts) .nowhere
  | .object members _ => .object (Member.allUnplaced members) .nowhere
  | .paren inner _ => .paren (TypeExpr.unplaced inner) .nowhere
  | .unsupported _ => .unsupported .nowhere

/-- The types without their places. -/
def TypeExpr.allUnplaced : List TypeExpr → List TypeExpr
  | [] => []
  | type :: rest => TypeExpr.unplaced type :: TypeExpr.allUnplaced rest

/-- The members without their places. -/
def Member.allUnplaced : List Member → List Member
  | [] => []
  | .property ⟨head, some type⟩ :: rest =>
    .property ⟨{ head with nameSpan := .nowhere, span := .nowhere }, some (TypeExpr.unplaced type)⟩
      :: Member.allUnplaced rest
  | .property ⟨head, none⟩ :: rest =>
    .property ⟨{ head with nameSpan := .nowhere, span := .nowhere }, none⟩ ::
      Member.allUnplaced rest
  | .index key value isReadonly _ :: rest =>
    .index (TypeExpr.unplaced key) (TypeExpr.unplaced value) isReadonly .nowhere ::
      Member.allUnplaced rest
  | .mapped _ :: rest => .mapped .nowhere :: Member.allUnplaced rest
  | .other _ :: rest => .other .nowhere :: Member.allUnplaced rest

end

end InterfaceSchema
