import InterfaceSchema.Dialect.Basic
import InterfaceSchema.Text.Search

/-!
# Yup

Yup has no unions. A union whose parts are all written as literal sets
becomes one set with all their values; any other union admits anything.
Schemas are required by default, and an optional field loses that mark.
-/

namespace InterfaceSchema.Dialect

/-- What marks a schema as required. -/
def yupRequired : Text := ".required()"

/-- What a set of literals starts with. -/
def yupSetStart : Text := "y.mixed().oneOf(["

/-- What a required set of literals ends with. -/
def yupSetEnd : Text := "]).required()"

/-- A required set of literals. -/
def yupSet (values : Text) : Text := yupSetStart ++ values ++ yupSetEnd

/-- The values of a required set of literals. -/
def yupSetValues? (schema : Text) : Option Text :=
  (Text.afterStart? yupSetStart schema).bind (Text.beforeEnd? yupSetEnd)

/-- An optional schema. -/
def yupOptional (schema : Text) : Text :=
  (Text.beforeEnd? yupRequired schema).getD schema ++ ".optional()"

/-- Schemas for the `yup` library. -/
def yup : Dialect where
  target := .yup
  imports := some ("import y from 'yup'" : Text)
  keyword
    | .string => "y.string().required()"
    | .number => "y.number().required()"
    | .boolean => "y.boolean().required()"
    | .object => "y.object().required()"
    | .null => "y.mixed().oneOf([null])"
    | .undefined | .void => "y.mixed().oneOf([undefined])"
    | .never => "y.mixed().oneOf([])"
    | .bigint | .symbol | .any | .unknown => "y.mixed()"
  date := "y.date().required()"
  literal literal := yupSet (literalValue literal)
  array item := "y.array(" ++ item ++ ").required()"
  tuple items := "y.tuple([" ++ commas items ++ "]).required()"
  union parts :=
    match parts.mapM yupSetValues? with
    | some values => yupSet (commas values)
    | none => "y.mixed()"
  intersection := chain fun left right => left ++ ".concat(" ++ right ++ ")"
  record _ _ _ := "y.object().required()"
  object fields :=
    Layout.block "y.object(\x7b"
      (entries (fun field => if field.optional then yupOptional field.value else field.value) fields)
      "\x7d)" ++ yupRequired
  declaration := typeAndConst "y.InferType"

end InterfaceSchema.Dialect
