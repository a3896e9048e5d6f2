import InterfaceSchema.Text.Quoted

/-!
# Syntax trees of type declarations

A source file is read as a list of top-level statements. Interfaces and type
aliases are read in full; of every other statement only the span is kept.
Every node carries the span it was read from, so that parts of the source
can be copied instead of written anew.
-/

namespace InterfaceSchema

/-- Types that are named by a keyword. -/
inductive Keyword where
  | string | number | boolean | bigint | symbol | object
  | null | undefined | void | any | unknown | never
deriving DecidableEq, Repr

namespace Keyword

/-- All keywords. -/
def all : List Keyword :=
  [.string, .number, .boolean, .bigint, .symbol, .object,
    .null, .undefined, .void, .any, .unknown, .never]

/-- The word that names the type. -/
def word : Keyword → Text
  | .string => "string"
  | .number => "number"
  | .boolean => "boolean"
  | .bigint => "bigint"
  | .symbol => "symbol"
  | .object => "object"
  | .null => "null"
  | .undefined => "undefined"
  | .void => "void"
  | .any => "any"
  | .unknown => "unknown"
  | .never => "never"

/-- The keyword spelled like this. -/
def ofWord? (given : Text) : Option Keyword := all.find? fun keyword => keyword.word == given

/-- A keyword is found by its word. -/
theorem ofWord?_word (keyword : Keyword) : ofWord? keyword.word = some keyword := by
  cases keyword <;> decide

end Keyword

/-- Types with a single value. -/
inductive Literal where
  /-- A string, without quotes and with its escapes resolved. -/
  | string (value : Text)
  /-- A number as it is spelled, its sign included. -/
  | number (spelling : Text)
  | boolean (value : Bool)
deriving DecidableEq, Repr

/-- What a property signature says besides its type. -/
structure PropertyHead where
  /-- The name as it is spelled, with quotes or brackets if it has any. -/
  name : Text
  nameSpan : Span
  optional : Bool
  readonly : Bool
  /-- The documentation comment right before the property. -/
  docs : Option Span
  /-- The whole signature without the separator after it. -/
  span : Span
deriving DecidableEq, Repr

/-- The property's name without quotes. -/
def PropertyHead.key (head : PropertyHead) : Text := Text.stripQuotes head.name

mutual

/-- Type expressions. -/
inductive TypeExpr where
  | keyword (keyword : Keyword) (span : Span)
  | literal (literal : Literal) (span : Span)
  /-- A possibly dotted name with type arguments. -/
  | reference (name : Text) (arguments : List TypeExpr) (span : Span)
  | array (item : TypeExpr) (span : Span)
  | tuple (items : List TypeExpr) (span : Span)
  | union (parts : List TypeExpr) (span : Span)
  | intersection (parts : List TypeExpr) (span : Span)
  /-- An object type written in place. -/
  | object (members : List Member) (span : Span)
  | paren (inner : TypeExpr) (span : Span)
  /-- A type without a schema: functions, conditions, look-ups and the like. -/
  | unsupported (span : Span)

/-- A property signature. -/
structure Property where
  head : PropertyHead
  /-- The declared type, if there is one. -/
  type : Option TypeExpr

/-- Members of an interface body or an object type. -/
inductive Member where
  | property (property : Property)
  /-- An index signature with the types of its keys and values. -/
  | index (key value : TypeExpr) (readonly : Bool) (span : Span)
  /-- A mapped clause, which stands for properties that are not listed. -/
  | mapped (span : Span)
  /-- A method, call or construct signature. -/
  | other (span : Span)

end

namespace TypeExpr

/-- Where the type was read from. -/
def span : TypeExpr → Span
  | keyword _ span | literal _ span | reference _ _ span | array _ span | tuple _ span
  | union _ span | intersection _ span | object _ span | paren _ span | unsupported span => span

/-- The members, if the type is directly an object type. -/
def members? : TypeExpr → Option (List Member)
  | object members _ => some members
  | _ => none

end TypeExpr

/-- The members of the declared type, if it is directly an object type. -/
def Property.members? (property : Property) : Option (List Member) :=
  property.type.bind TypeExpr.members?

/-- The property, if the member is one. -/
def Member.property? : Member → Option Property
  | .property found => some found
  | _ => none

/-- The properties among the members, in order. -/
def propertiesOf (members : List Member) : List Property := members.filterMap Member.property?

/-- An interface declaration. -/
structure InterfaceDecl where
  name : Text
  nameSpan : Span
  exported : Bool
  /-- The type parameters with their angle brackets. -/
  parameters : Option Span
  /-- The types that are extended. -/
  bases : List TypeExpr
  members : List Member
  /-- The whole statement, from an attached documentation comment on. -/
  span : Span

/-- The declaration of a name for a type. -/
structure AliasDecl where
  name : Text
  nameSpan : Span
  exported : Bool
  /-- The type parameters with their angle brackets. -/
  parameters : Option Span
  type : TypeExpr
  /-- The whole statement, from an attached documentation comment on. -/
  span : Span

/-- Top-level statements. -/
inductive Item where
  | interfaceItem (decl : InterfaceDecl)
  | aliasItem (decl : AliasDecl)
  | importItem (span : Span)
  | otherItem (span : Span)

/-- A source file: its text and its top-level statements in order. -/
structure SourceFile where
  text : Text
  items : List Item

namespace Item

/-- The interface, if the statement declares one. -/
def interface? : Item → Option InterfaceDecl
  | interfaceItem decl => some decl
  | _ => none

/-- The declared name of an interface or alias. -/
def name? : Item → Option Text
  | interfaceItem decl => some decl.name
  | aliasItem decl => some decl.name
  | _ => none

end Item

namespace SourceFile

/-- The interfaces in source order. -/
def interfaces (file : SourceFile) : List InterfaceDecl := file.items.filterMap Item.interface?

/-- The names of interfaces and aliases in source order. -/
def declaredNames (file : SourceFile) : List Text := file.items.filterMap Item.name?

end SourceFile

end InterfaceSchema
