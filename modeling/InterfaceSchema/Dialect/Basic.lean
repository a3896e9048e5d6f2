import InterfaceSchema.Layout
import InterfaceSchema.Schema
import InterfaceSchema.Target

/-!
# Schema dialects

A dialect says how each kind of schema is written as an expression, how a
named schema is declared and what a file imports. Writing a type, a
declaration and a whole model is the same for every dialect.
-/

namespace InterfaceSchema

/-- A field of an object with its schema already written. -/
structure WrittenField where
  /-- The name as an object key. -/
  key : Text
  /-- The schema of the field. -/
  value : Text
  optional : Bool
  readonly : Bool

/-- How a schema is written. -/
structure Dialect where
  target : Target
  /-- What stands at the top of a file. -/
  imports : Option Text
  keyword : Keyword → Text
  date : Text
  literal : Literal → Text
  /-- An array of the written item. -/
  array : Text → Text
  tuple : List Text → Text
  union : List Text → Text
  /-- Also joins an interface with the types it extends. -/
  intersection : List Text → Text
  /-- A record with a key type, which is also given in written form, and
  written values. -/
  record : SchemaType → Text → Text → Text
  object : List WrittenField → Text
  /-- The declaration of a name for a written schema. -/
  declaration : Text → Text → Text

namespace Dialect

/-- A literal as it stands in code. -/
def literalValue : Literal → Text
  | .string value => Text.quote value
  | .number spelling => spelling
  | .boolean true => "true"
  | .boolean false => "false"

/-- An operation on two expressions, applied from the left. -/
def chain (join : Text → Text → Text) : List Text → Text
  | [] => []
  | first :: rest => rest.foldl join first

/-- The entries of an object, one for each field. -/
def entries (value : WrittenField → Text) (fields : List WrittenField) : List Text :=
  fields.map fun field => field.key ++ (": " ++ value field)

/-- Expressions in a row, separated by commas. -/
def commas (parts : List Text) : Text := Text.joinWith ", " parts

/-- The declaration of a type next to its schema. -/
def typeAndConst (typeOf name schema : Text) : Text :=
  "export type " ++ name ++ " = " ++ typeOf ++ "<typeof " ++ name ++ ">\nexport const " ++ name ++
    " = " ++ schema ++ "\n"

mutual

/-- A written type. -/
def writeType (dialect : Dialect) : SchemaType → Text
  | .keyword keyword => dialect.keyword keyword
  | .date => dialect.date
  | .literal literal => dialect.literal literal
  | .reference name => name
  | .array item => dialect.array (writeType dialect item)
  | .tuple items => dialect.tuple (writeTypes dialect items)
  | .union parts => dialect.union (writeTypes dialect parts)
  | .intersection parts => dialect.intersection (writeTypes dialect parts)
  | .object fields => dialect.object (writeFields dialect fields)
  | .record key value => dialect.record key (writeType dialect key) (writeType dialect value)

/-- Written types, in order. -/
def writeTypes (dialect : Dialect) : List SchemaType → List Text
  | [] => []
  | type :: rest => writeType dialect type :: writeTypes dialect rest

/-- Written fields, in order. -/
def writeFields (dialect : Dialect) : List Field → List WrittenField
  | [] => []
  | ⟨name, type, optional, readonly⟩ :: rest =>
    ⟨Text.propertyKey name, writeType dialect type, optional, readonly⟩ :: writeFields dialect rest

end

/-- What a declared name stands for, in written form. -/
def writeShape (dialect : Dialect) : Shape → Text
  | .object bases fields =>
    let object := dialect.object (writeFields dialect fields)
    if bases.isEmpty then object else dialect.intersection (writeTypes dialect bases ++ [object])
  | .type type => writeType dialect type

/-- A written declaration. -/
def writeDeclaration (dialect : Dialect) (declaration : Declaration) : Text :=
  dialect.declaration declaration.name (writeShape dialect declaration.shape)

/-- A whole file. -/
def emit (dialect : Dialect) (model : Model) : Text :=
  (match dialect.imports with
    | some imports => imports ++ "\n\n"
    | none => []) ++
    Text.joinWith "\n" (model.declarations.map (writeDeclaration dialect))

end Dialect

end InterfaceSchema
