import InterfaceSchema.Dialect.Basic

/-!
# Effect

Records are written with positional arguments, the schema of the keys left
out for strings; the fixups of this target name the arguments and change the
package that is imported.
-/

namespace InterfaceSchema.Dialect

/-- Schemas for the `effect` library. -/
def effect : Dialect where
  target := .effect
  imports := some ("import \x7b Schema as ES \x7d from '@effect/schema'" : Text)
  keyword
    | .string => "ES.String"
    | .number => "ES.Number"
    | .boolean => "ES.Boolean"
    | .bigint => "ES.BigIntFromSelf"
    | .symbol => "ES.SymbolFromSelf"
    | .object => "ES.Object"
    | .null => "ES.Null"
    | .undefined => "ES.Undefined"
    | .void => "ES.Void"
    | .any => "ES.Any"
    | .unknown => "ES.Unknown"
    | .never => "ES.Never"
  date := "ES.Date"
  literal literal := "ES.Literal(" ++ literalValue literal ++ ")"
  array item := "ES.Array(" ++ item ++ ")"
  tuple items := "ES.Tuple(" ++ commas items ++ ")"
  union parts := "ES.Union(" ++ commas parts ++ ")"
  intersection := chain fun left right => "ES.extend(" ++ left ++ ", " ++ right ++ ")"
  record
    | .keyword .string, _, value => "ES.Record(" ++ value ++ ")"
    | _, key, value => "ES.Record(" ++ key ++ ", " ++ value ++ ")"
  object fields := Layout.block "ES.Struct(\x7b"
    (entries (fun field => if field.optional then "ES.optional(" ++ field.value ++ ")" else field.value)
      fields)
    "\x7d)"
  declaration := typeAndConst "ES.Schema.Type"

end InterfaceSchema.Dialect
