import InterfaceSchema.Dialect.Basic

/-!
# JSON Schema

Schemas are plain objects. Fields that are not optional are listed as
required; a tuple fixes its length; a record restricts its values only.
-/

namespace InterfaceSchema.Dialect

/-- An object with the given entries. -/
def jsonObject (entries : List Text) : Text := Layout.block "\x7b" entries "\x7d"

/-- A list with the given items. -/
def jsonList (items : List Text) : Text := Layout.block "[" items "]"

/-- A field's name in the list of required fields: always quoted. -/
def jsonRequiredName (field : WrittenField) : Text :=
  if field.key.head? = some '\'' then field.key else Text.quote field.key

/-- A decimal number. -/
def decimal (n : Nat) : Text := Nat.toDigits 10 n

/-- Schemas as plain objects. -/
def jsonSchema : Dialect where
  target := .jsonschema
  imports := none
  keyword
    | .string => "\x7b type: 'string' \x7d"
    | .number => "\x7b type: 'number' \x7d"
    | .boolean => "\x7b type: 'boolean' \x7d"
    | .bigint => "\x7b type: 'integer' \x7d"
    | .object => "\x7b type: 'object' \x7d"
    | .null => "\x7b type: 'null' \x7d"
    | .undefined | .void | .never => "\x7b not: \x7b\x7d \x7d"
    | .symbol | .any | .unknown => "\x7b\x7d"
  date := "\x7b type: 'string', format: 'date-time' \x7d"
  literal literal := "\x7b const: " ++ literalValue literal ++ " \x7d"
  array item := jsonObject ["type: 'array'", "items: " ++ item]
  tuple items := jsonObject
    ["type: 'array'", "prefixItems: " ++ jsonList items, "minItems: " ++ decimal items.length,
      "maxItems: " ++ decimal items.length]
  union parts := jsonObject ["anyOf: " ++ jsonList parts]
  intersection parts := jsonObject ["allOf: " ++ jsonList parts]
  record _ _ value := jsonObject ["type: 'object'", "additionalProperties: " ++ value]
  object fields :=
    let required := (fields.filter fun field => !field.optional).map jsonRequiredName
    jsonObject <|
      ["type: 'object'".toList, "properties: " ++ jsonObject (entries WrittenField.value fields)] ++
        if required.isEmpty then [] else ["required: [" ++ commas required ++ "]"]
  declaration name schema := "export const " ++ name ++ " = " ++ schema ++ "\n"

end InterfaceSchema.Dialect
