import InterfaceSchema.Syntax.Source

/-!
# Schema models

A schema model says what values the declarations of a file admit, without
regard to how the file is written. Interfaces become object types with the
types they extend, aliases stand for their type. Types that have no schema
are refused, and so are declarations with type parameters; of several such
places the first in reading order is reported.
-/

namespace InterfaceSchema

mutual

/-- What a schema admits. -/
inductive SchemaType where
  | keyword (keyword : Keyword)
  | date
  | literal (literal : Literal)
  /-- Whatever the declaration with this name admits. -/
  | reference (name : Text)
  | array (item : SchemaType)
  | tuple (items : List SchemaType)
  | union (parts : List SchemaType)
  | intersection (parts : List SchemaType)
  | object (fields : List Field)
  /-- Objects with any keys of one type and values of another. -/
  | record (key value : SchemaType)

/-- A field of an object. -/
structure Field where
  name : Text
  type : SchemaType
  optional : Bool
  readonly : Bool

end

/-- What a declared name stands for. -/
inductive Shape where
  /-- The extended types and the fields of the interface itself. -/
  | object (bases : List SchemaType) (fields : List Field)
  | type (type : SchemaType)

/-- A named schema. -/
structure Declaration where
  name : Text
  shape : Shape

/-- The declarations of a file in source order. -/
structure Model where
  declarations : List Declaration

/-- Something that has no schema. -/
inductive Unsupported where
  | type (span : Span)
  /-- The type parameters of an interface. -/
  | genericInterface (parameters : Span)
  /-- The type parameters of an alias. -/
  | genericAlias (parameters : Span)
deriving DecidableEq, Repr

namespace Unsupported

/-- Where it stands. -/
def span : Unsupported → Span
  | type span | genericInterface span | genericAlias span => span

end Unsupported

namespace Schema

/-- Whether the member is an index signature. -/
def isIndex : Member → Bool
  | .index .. => true
  | _ => false

mutual

/-- The schema of a type. -/
def ofType : TypeExpr → Except Unsupported SchemaType
  | .keyword keyword _ => .ok (.keyword keyword)
  | .literal literal _ => .ok (.literal literal)
  | .reference name arguments _ =>
    match arguments with
    | [] => .ok (if name = "Date" then .date else .reference name)
    | [item] =>
      if name = "Array" ∨ name = "ReadonlyArray" then do
        let item ← ofType item
        .ok (.array item)
      else .ok (.reference name)
    | [key, value] =>
      if name = "Record" then do
        let key ← ofType key
        let value ← ofType value
        .ok (.record key value)
      else .ok (.reference name)
    | _ => .ok (.reference name)
  | .array item _ => do
    let item ← ofType item
    .ok (.array item)
  | .tuple items _ => do
    let items ← ofTypes items
    .ok (.tuple items)
  | .union parts _ => do
    let parts ← ofTypes parts
    .ok (.union parts)
  | .intersection parts _ => do
    let parts ← ofTypes parts
    .ok (.intersection parts)
  | .object members _ => do
    let fields ← fieldsOf members
    if fields.isEmpty && members.countP isIndex == 1 then recordOf members
    else .ok (.object fields)
  | .paren inner _ => ofType inner
  | .unsupported span => .error (.type span)

/-- The schemas of types, in order. -/
def ofTypes : List TypeExpr → Except Unsupported (List SchemaType)
  | [] => .ok []
  | type :: rest => do
    let first ← ofType type
    let others ← ofTypes rest
    .ok (first :: others)

/-- The fields for the properties among the members. A property without a
type admits anything. -/
def fieldsOf : List Member → Except Unsupported (List Field)
  | [] => .ok []
  | .property ⟨head, some type⟩ :: rest => do
    let type ← ofType type
    let others ← fieldsOf rest
    .ok (⟨head.key, type, head.optional, head.readonly⟩ :: others)
  | .property ⟨head, none⟩ :: rest => do
    let others ← fieldsOf rest
    .ok (⟨head.key, .keyword .any, head.optional, head.readonly⟩ :: others)
  | _ :: rest => fieldsOf rest

/-- The record for the first index signature among the members. -/
def recordOf : List Member → Except Unsupported SchemaType
  | [] => .ok (.object [])
  | .index key value _ _ :: _ => do
    let key ← ofType key
    let value ← ofType value
    .ok (.record key value)
  | _ :: rest => recordOf rest

end

/-- The schema of a body: a record if it holds one index signature and no
property, an object otherwise. -/
def ofMembers (members : List Member) : Except Unsupported SchemaType := do
  let fields ← fieldsOf members
  if fields.isEmpty && members.countP isIndex == 1 then recordOf members else .ok (.object fields)

/-- The declaration of an interface. An interface that extends nothing and
holds only an index signature stands for a record. -/
def ofInterface (decl : InterfaceDecl) : Except Unsupported Declaration :=
  match decl.parameters with
  | some span => .error (.genericInterface span)
  | none => do
    let bases ← ofTypes decl.bases
    let body ← ofMembers decl.members
    match body with
    | .object fields => .ok ⟨decl.name, .object bases fields⟩
    | record => .ok ⟨decl.name, if bases.isEmpty then .type record else .object bases []⟩

/-- The declaration of an alias. -/
def ofAlias (decl : AliasDecl) : Except Unsupported Declaration :=
  match decl.parameters with
  | some span => .error (.genericAlias span)
  | none => do
    let type ← ofType decl.type
    .ok ⟨decl.name, .type type⟩

/-- The declarations of interfaces and aliases, in order. -/
def ofItems : List Item → Except Unsupported (List Declaration)
  | [] => .ok []
  | .interfaceItem decl :: rest => do
    let first ← ofInterface decl
    let others ← ofItems rest
    .ok (first :: others)
  | .aliasItem decl :: rest => do
    let first ← ofAlias decl
    let others ← ofItems rest
    .ok (first :: others)
  | _ :: rest => ofItems rest

end Schema

/-- The schema model of a source file. -/
def Model.ofFile (file : SourceFile) : Except Unsupported Model := do
  let declarations ← Schema.ofItems file.items
  .ok ⟨declarations⟩

end InterfaceSchema
