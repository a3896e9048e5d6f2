import InterfaceSchema.Dialect.Basic

/-!
# TypeBox

TypeBox schemas are written from the syntax tree and not from a schema
model: TypeBox has its own functions for the usual utility types, and marks
read-only fields.
-/

namespace InterfaceSchema.TypeBox

/-- What stands at the top of a file. -/
def imports : Text := "import \x7b Type, Static \x7d from '@sinclair/typebox'"

/-- Utility types with a function of the same name. -/
def utilityTypes : List Text :=
  ["Partial", "Required", "Readonly", "Pick", "Omit", "Exclude", "Extract"].map String.toList

/-- The schema of a keyword. -/
def keyword : Keyword → Text
  | .string => "Type.String()"
  | .number => "Type.Number()"
  | .boolean => "Type.Boolean()"
  | .bigint => "Type.BigInt()"
  | .symbol => "Type.Symbol()"
  | .object => "Type.Object(\x7b\x7d)"
  | .null => "Type.Null()"
  | .undefined => "Type.Undefined()"
  | .void => "Type.Void()"
  | .any => "Type.Any()"
  | .unknown => "Type.Unknown()"
  | .never => "Type.Never()"

/-- A schema with marks for being read-only and optional. -/
def marked (head : PropertyHead) (schema : Text) : Text :=
  match head.readonly, head.optional with
  | true, true => "Type.ReadonlyOptional(" ++ schema ++ ")"
  | true, false => "Type.Readonly(" ++ schema ++ ")"
  | false, true => "Type.Optional(" ++ schema ++ ")"
  | false, false => schema

/-- The entry of an object for a property. -/
def entry (head : PropertyHead) (schema : Text) : Text :=
  Text.propertyKey head.key ++ ": " ++ marked head schema

/-- An object with the given entries. -/
def object (entries : List Text) : Text := "Type.Object(" ++ Layout.block "\x7b" entries "\x7d" ++ ")"

/-- A record. -/
def record (key value : Text) : Text := "Type.Record(" ++ key ++ ", " ++ value ++ ")"

mutual

/-- The schema of a type. -/
def writeType : TypeExpr → Except Unsupported Text
  | .keyword word _ => .ok (keyword word)
  | .literal literal _ => .ok ("Type.Literal(" ++ Dialect.literalValue literal ++ ")")
  | .reference name arguments _ =>
    match arguments with
    | [] => .ok (if name = "Date" then "Type.Date()" else name)
    | [item] =>
      if name = "Array" ∨ name = "ReadonlyArray" then do
        let item ← writeType item
        .ok ("Type.Array(" ++ item ++ ")")
      else if utilityTypes.contains name then do
        let item ← writeType item
        .ok ("Type." ++ name ++ "(" ++ item ++ ")")
      else .ok name
    | first :: second :: rest =>
      if name = "Record" ∧ rest.isEmpty then do
        let key ← writeType first
        let value ← writeType second
        .ok (record key value)
      else if utilityTypes.contains name then do
        let first ← writeType first
        let second ← writeType second
        let others ← writeTypes rest
        .ok ("Type." ++ name ++ "(" ++ Dialect.commas (first :: second :: others) ++ ")")
      else .ok name
  | .array item _ => do
    let item ← writeType item
    .ok ("Type.Array(" ++ item ++ ")")
  | .tuple items _ => do
    let items ← writeTypes items
    .ok ("Type.Tuple([" ++ Dialect.commas items ++ "])")
  | .union parts _ => do
    let parts ← writeTypes parts
    .ok ("Type.Union([" ++ Dialect.commas parts ++ "])")
  | .intersection parts _ => do
    let parts ← writeTypes parts
    .ok ("Type.Intersect([" ++ Dialect.commas parts ++ "])")
  | .object members _ => do
    let entries ← writeProperties members
    if entries.isEmpty && members.countP Schema.isIndex == 1 then writeRecord members
    else .ok (object entries)
  | .paren inner _ => writeType inner
  | .unsupported span => .error (.type span)

/-- The schemas of types, in order. -/
def writeTypes : List TypeExpr → Except Unsupported (List Text)
  | [] => .ok []
  | type :: rest => do
    let first ← writeType type
    let others ← writeTypes rest
    .ok (first :: others)

/-- The entries for the properties among the members. -/
def writeProperties : List Member → Except Unsupported (List Text)
  | [] => .ok []
  | .property ⟨head, some type⟩ :: rest => do
    let schema ← writeType type
    let others ← writeProperties rest
    .ok (entry head schema :: others)
  | .property ⟨head, none⟩ :: rest => do
    let others ← writeProperties rest
    .ok (entry head (keyword .any) :: others)
  | _ :: rest => writeProperties rest

/-- The record for the first index signature among the members. -/
def writeRecord : List Member → Except Unsupported Text
  | [] => .ok (object [])
  | .index key value _ _ :: _ => do
    let key ← writeType key
    let value ← writeType value
    .ok (record key value)
  | _ :: rest => writeRecord rest

end

/-- The schema of a body. -/
def writeBody (members : List Member) : Except Unsupported Text := do
  let entries ← writeProperties members
  if entries.isEmpty && members.countP Schema.isIndex == 1 then writeRecord members
  else .ok (object entries)

/-- The declaration of a name for a schema. -/
def declaration (name schema : Text) : Text := Dialect.typeAndConst "Static" name schema

/-- The declaration of an interface. Its body is written before the types it
extends are looked at. -/
def writeInterface (decl : InterfaceDecl) : Except Unsupported Text :=
  match decl.parameters with
  | some span => .error (.genericInterface span)
  | none => do
    let body ← writeBody decl.members
    if decl.bases.isEmpty then .ok (declaration decl.name body)
    else do
      let bases ← writeTypes decl.bases
      .ok (declaration decl.name
        ("Type.Intersect(" ++ Layout.block "[" (bases ++ [body]) "]" ++ ")"))

/-- The declaration of an alias. -/
def writeAlias (decl : AliasDecl) : Except Unsupported Text :=
  match decl.parameters with
  | some span => .error (.genericAlias span)
  | none => do
    let schema ← writeType decl.type
    .ok (declaration decl.name schema)

/-- The declarations of interfaces and aliases, in order. -/
def writeItems : List Item → Except Unsupported (List Text)
  | [] => .ok []
  | .interfaceItem decl :: rest => do
    let first ← writeInterface decl
    let others ← writeItems rest
    .ok (first :: others)
  | .aliasItem decl :: rest => do
    let first ← writeAlias decl
    let others ← writeItems rest
    .ok (first :: others)
  | _ :: rest => writeItems rest

/-- A whole file. -/
def emit (file : SourceFile) : Except Unsupported Text := do
  let declarations ← writeItems file.items
  .ok (imports ++ "\n\n" ++ Text.joinWith "\n" declarations)

end InterfaceSchema.TypeBox
