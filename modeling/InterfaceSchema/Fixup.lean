import InterfaceSchema.Fixup.Calls
import InterfaceSchema.Target

/-!
# Fixups of generated code

Each target has a list of rules that are applied one after another to the
whole of the generated code. A finished schema file is the header of its
target, an empty line and the code after all fixups.
-/

namespace InterfaceSchema

/-- A change to generated code. -/
inductive FixupRule where
  /-- Replace the first occurrence of a text. -/
  | first (old new : Text)
  /-- Replace every occurrence of a text. -/
  | every (old new : Text)
  /-- Replace the calls of a function for which `change` gives a new
  call. -/
  | calls (callee : Text) (change : List Text → Option Text)

namespace FixupRule

/-- The code after the change. -/
def apply (code : Text) : FixupRule → Text
  | first old new => Text.replaceFirst old new code
  | every old new => Text.replaceAll old new code
  | calls callee change => Calls.replaceCalls callee change code

end FixupRule

namespace Fixup

/-- A `zod` record of values alone gets strings as its keys. -/
def zodRecord : List Text → Option Text
  | [value] => some ("z.record(z.string(), " ++ value ++ ")")
  | _ => none

/-- An `effect` record with named arguments. -/
def effectRecord (key value : Text) : Text :=
  "ES.Record(\x7b key: " ++ key ++ ", value: " ++ value ++ " \x7d)"

/-- An `effect` record of keys and values gets names for them. -/
def effectPair : List Text → Option Text
  | [key, value] => some (effectRecord key value)
  | _ => none

/-- An `effect` record of values alone gets strings as its keys; one whose
arguments are named already stays. -/
def effectValue : List Text → Option Text
  | [value] => if value.head? = some '\x7b' then none else some (effectRecord "ES.String" value)
  | _ => none

/-- The rules for a target, in the order in which they apply. -/
def rules : Target → List FixupRule
  | .zod => [.calls "z.record" zodRecord]
  | .yup => [.first "import y from 'yup'" "import * as y from 'yup'"]
  | .effect =>
    [.calls "ES.Record" effectPair, .calls "ES.Record" effectValue,
      .every "@effect/schema" "effect"]
  | .typebox | .valibot | .jsonschema | .types => []

/-- The code after all rules for the target. -/
def apply (target : Target) (code : Text) : Text := (rules target).foldl FixupRule.apply code

/-- A header, an empty line and a body. -/
def withHeader (header body : Text) : Text := header ++ "\n\n" ++ body

/-- The content of a schema file for generated code. -/
def schemaFile (target : Target) (generated : Text) : Text :=
  withHeader target.header (apply target generated)

end Fixup

end InterfaceSchema
