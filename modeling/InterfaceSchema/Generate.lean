import InterfaceSchema.Diagnostic
import InterfaceSchema.Dialect.Effect
import InterfaceSchema.Dialect.JsonSchema
import InterfaceSchema.Dialect.TypeBox
import InterfaceSchema.Dialect.Valibot
import InterfaceSchema.Dialect.Yup
import InterfaceSchema.Dialect.Zod
import InterfaceSchema.Fixup

/-!
# Generated code

For every target, code is generated from a source that has been flattened.
Five targets write a schema model in their dialect, TypeBox writes the syntax
tree, and the target `types` keeps the source. The flattened source is read
again, so a name that flattening made up has to be well formed too.
-/

namespace InterfaceSchema

/-- The dialect of a target that writes schema models. -/
def Target.dialect? : Target → Option Dialect
  | .zod => some Dialect.zod
  | .valibot => some Dialect.valibot
  | .yup => some Dialect.yup
  | .effect => some Dialect.effect
  | .jsonschema => some Dialect.jsonSchema
  | .typebox | .types => none

/-- Why no code is generated. -/
inductive GenerateError where
  /-- The source, or the flattened source, is not well formed. -/
  | malformed
  | collision (collision : Flatten.NameCollision)
  /-- Something in the given source has no schema. -/
  | unsupported (unsupported : Unsupported) (source : Text)
deriving DecidableEq, Repr

/-- The report about the error in a file. -/
def GenerateError.diagnostic (file : Text) : GenerateError → Diagnostic
  | .malformed => malformedDiagnostic file
  | .collision found => found.diagnostic file
  | .unsupported found source => found.diagnostic file source

/-- The schema model of a source. -/
def Model.ofSource (source : Text) : Except GenerateError Model :=
  match SourceFile.read source with
  | none => .error .malformed
  | some file => (Model.ofFile file).mapError fun found => .unsupported found source

/-- Code in a dialect. -/
def Dialect.generate (dialect : Dialect) (source : Text) : Except GenerateError Text := do
  let model ← Model.ofSource source
  .ok (dialect.emit model)

/-- Code for TypeBox. -/
def TypeBox.generate (source : Text) : Except GenerateError Text :=
  match SourceFile.read source with
  | none => .error .malformed
  | some file => (TypeBox.emit file).mapError fun found => .unsupported found source

/-- Code for a target, from a flattened source. -/
def generate (target : Target) (source : Text) : Except GenerateError Text :=
  match target with
  | .typebox => TypeBox.generate source
  | .zod => Dialect.zod.generate source
  | .valibot => Dialect.valibot.generate source
  | .yup => Dialect.yup.generate source
  | .effect => Dialect.effect.generate source
  | .jsonschema => Dialect.jsonSchema.generate source
  | .types => .ok source

/-- Code for a target, from any source. -/
def flattenAndGenerate (target : Target) (source : Text) : Except GenerateError Text :=
  match flatten source with
  | .error .malformed => .error .malformed
  | .error (.collision collision) => .error (.collision collision)
  | .ok flattened => generate target flattened

/-- The content of the schema file for a source. -/
def schemaFileFor (target : Target) (source : Text) : Except GenerateError Text := do
  let generated ← flattenAndGenerate target source
  .ok (Fixup.schemaFile target generated)

end InterfaceSchema
