import InterfaceSchema.Text.Blank

/-!
# Targets

A target is what a run produces: schemas in one of six dialects, or the
flattened declarations themselves. Names are read without regard to the case
of the letters A to Z.
-/

namespace InterfaceSchema

/-- What a run produces. -/
inductive Target where
  | typebox
  | zod
  | valibot
  | yup
  | effect
  | jsonschema
  | types
deriving DecidableEq, Repr

/-- A name that no target has, as it was given. -/
structure UnknownTarget where
  name : Text
deriving DecidableEq, Repr

namespace Target

/-- All targets, in the order in which they are listed. -/
def all : List Target := [.typebox, .zod, .valibot, .yup, .effect, .jsonschema, .types]

/-- The name of a target. -/
def name : Target → Text
  | .typebox => "typebox"
  | .zod => "zod"
  | .valibot => "valibot"
  | .yup => "yup"
  | .effect => "effect"
  | .jsonschema => "jsonschema"
  | .types => "types"

/-- All names, in listing order. -/
def names : List Text := all.map name

/-- The target with exactly this name. -/
def ofName? (given : Text) : Option Target := all.find? fun target => target.name == given

/-- The target with this name in any letter case. -/
def parse (given : Text) : Except UnknownTarget Target :=
  match ofName? (given.map Char.toLower) with
  | some target => .ok target
  | none => .error ⟨given⟩

/-- The comment at the top of every schema file. -/
def header (target : Target) : Text :=
  "// THIS FILE IS AUTO-GENERATED FOR " ++ target.name.map Char.toUpper ++ ". DO NOT EDIT."

/-- Every target is listed. -/
theorem mem_all (target : Target) : target ∈ all := by cases target <;> decide

/-- A target is found by its name. -/
theorem ofName?_name (target : Target) : ofName? target.name = some target := by
  cases target <;> decide

end Target

/-- The wording for a name that no target has. -/
def UnknownTarget.message (unknown : UnknownTarget) : Text :=
  "invalid target '" ++ unknown.name ++ "', available targets are: " ++
    Text.joinWith ", " Target.names

end InterfaceSchema
