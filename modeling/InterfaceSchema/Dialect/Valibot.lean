import InterfaceSchema.Dialect.Basic

/-!
# Valibot

Every kind of schema has a function of its own; records carry the schema of
their keys.
-/

namespace InterfaceSchema.Dialect

/-- Schemas for the `valibot` library. -/
def valibot : Dialect where
  target := .valibot
  imports := some ("import * as v from 'valibot'" : Text)
  keyword
    | .string => "v.string()"
    | .number => "v.number()"
    | .boolean => "v.boolean()"
    | .bigint => "v.bigint()"
    | .symbol => "v.symbol()"
    | .object => "v.object(\x7b\x7d)"
    | .null => "v.null()"
    | .undefined => "v.undefined()"
    | .void => "v.void()"
    | .any => "v.any()"
    | .unknown => "v.unknown()"
    | .never => "v.never()"
  date := "v.date()"
  literal literal := "v.literal(" ++ literalValue literal ++ ")"
  array item := "v.array(" ++ item ++ ")"
  tuple items := "v.tuple([" ++ commas items ++ "])"
  union parts := "v.union([" ++ commas parts ++ "])"
  intersection parts := "v.intersect([" ++ commas parts ++ "])"
  record _ key value := "v.record(" ++ key ++ ", " ++ value ++ ")"
  object fields := Layout.block "v.object(\x7b"
    (entries (fun field => if field.optional then "v.optional(" ++ field.value ++ ")" else field.value)
      fields)
    "\x7d)"
  declaration := typeAndConst "v.InferOutput"

end InterfaceSchema.Dialect
