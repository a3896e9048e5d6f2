import InterfaceSchema.Dialect.Basic

/-!
# Zod

Records are written with their values only; the fixups of this target add
the schema of the keys.
-/

namespace InterfaceSchema.Dialect

/-- Schemas for the `zod` library. -/
def zod : Dialect where
  target := .zod
  imports := some ("import \x7b z \x7d from 'zod'" : Text)
  keyword
    | .string => "z.string()"
    | .number => "z.number()"
    | .boolean => "z.boolean()"
    | .bigint => "z.bigint()"
    | .symbol => "z.symbol()"
    | .object => "z.object(\x7b\x7d)"
    | .null => "z.null()"
    | .undefined => "z.undefined()"
    | .void => "z.void()"
    | .any => "z.any()"
    | .unknown => "z.unknown()"
    | .never => "z.never()"
  date := "z.date()"
  literal literal := "z.literal(" ++ literalValue literal ++ ")"
  array item := "z.array(" ++ item ++ ")"
  tuple items := "z.tuple([" ++ commas items ++ "])"
  union parts := "z.union([" ++ commas parts ++ "])"
  intersection := chain fun left right => "z.intersection(" ++ left ++ ", " ++ right ++ ")"
  record _ _ value := "z.record(" ++ value ++ ")"
  object fields := Layout.block "z.object(\x7b"
    (entries (fun field => if field.optional then field.value ++ ".optional()" else field.value) fields)
    "\x7d)"
  declaration := typeAndConst "z.infer"

end InterfaceSchema.Dialect
