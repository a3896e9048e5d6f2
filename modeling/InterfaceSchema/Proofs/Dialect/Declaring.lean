import InterfaceSchema.Proofs.Dialect.TypeBox
import InterfaceSchema.Proofs.Flatten.Fresh

/-!
# Declared constants

Code for a target declares one constant for each name that its source declares,
in order. The names that flattening made up are declared once each. Names that
a source declares more than once, or that are spelled differently and read as
one, are declared as often as they are read.
-/

namespace InterfaceSchema

open Text

/-- The type of the types that belong to the constants of a target. -/
def Target.typeOf? : Target → Option Text
  | .zod => some "z.infer"
  | .valibot => some "v.InferOutput"
  | .yup => some "y.InferType"
  | .effect => some "ES.Schema.Type"
  | .typebox => some "Static"
  | .jsonschema | .types => none

/-- What code for a target starts with. -/
def Target.opening (target : Target) : Text :=
  match target.dialect? with
  | some dialect =>
    match dialect.imports with
    | some imports => imports ++ "\n\n"
    | none => []
  | none => TypeBox.imports ++ "\n\n"

/-- The declaration of a constant, behind that of its type if there is one. -/
def Target.constant (target : Target) (name schema : Text) : Text :=
  match target.typeOf? with
  | some typeOf => Dialect.typeAndConst typeOf name schema
  | none => "export const " ++ name ++ " = " ++ schema ++ "\n"

/-- Code for a target that declares these constants and nothing else. -/
def Target.constants (target : Target) (names schemas : List Text) : Text :=
  target.opening ++ joinWith "\n" (List.zipWith target.constant names schemas)

variable {target : Target} {dialect : Dialect} {source text : Text}

/-- The declaration of an interface has its name. -/
theorem Schema.name_ofInterface {decl : InterfaceDecl} {found : Declaration}
    (h : Schema.ofInterface decl = .ok found) : found.name = decl.name := by
  obtain ⟨name, nameSpan, exported, parameters, bases, members, span⟩ := decl
  cases parameters with
  | some span => cases h
  | none =>
    obtain ⟨schemas, -, h⟩ := TypeBox.bind_eq_ok.1 h
    obtain ⟨body, -, h⟩ := TypeBox.bind_eq_ok.1 h
    cases body <;> cases h <;> rfl

/-- The declaration of an alias has its name. -/
theorem Schema.name_ofAlias {decl : AliasDecl} {found : Declaration}
    (h : Schema.ofAlias decl = .ok found) : found.name = decl.name := by
  obtain ⟨name, nameSpan, exported, parameters, type, span⟩ := decl
  cases parameters with
  | some span => cases h
  | none =>
    obtain ⟨schema, -, h⟩ := TypeBox.bind_eq_ok.1 h
    cases h
    rfl

/-- The declarations of a model have the names that are declared. -/
theorem Schema.names_ofItems {items : List Item} {declarations : List Declaration}
    (h : Schema.ofItems items = .ok declarations) :
    declarations.map Declaration.name = items.filterMap Item.name? := by
  induction items generalizing declarations with
  | nil =>
    cases h
    rfl
  | cons item rest ih =>
    cases item with
    | interfaceItem decl =>
      obtain ⟨first, hfirst, h⟩ := TypeBox.bind_eq_ok.1 h
      obtain ⟨others, hothers, h⟩ := TypeBox.bind_eq_ok.1 h
      cases h
      rw [List.map_cons, ih hothers, Schema.name_ofInterface hfirst]
      rfl
    | aliasItem decl =>
      obtain ⟨first, hfirst, h⟩ := TypeBox.bind_eq_ok.1 h
      obtain ⟨others, hothers, h⟩ := TypeBox.bind_eq_ok.1 h
      cases h
      rw [List.map_cons, ih hothers, Schema.name_ofAlias hfirst]
      rfl
    | importItem | otherItem => exact ih h

/-- A dialect declares a constant behind its type, if that has one. -/
theorem declaration_eq (h : target.dialect? = some dialect) (name schema : Text) :
    dialect.declaration name schema = target.constant name schema := by
  cases target with
  | zod | valibot | yup | effect | jsonschema =>
    cases h
    rfl
  | typebox | types => cases h

/-- Declarations with these names are constants with these names. -/
theorem exists_zipWith {declared : Text → Text → Text} {texts : List Text}
    {declarations : List Declaration}
    (h : List.Forall₂ (fun text found => ∃ schema, text = declared found.name schema) texts
      declarations) :
    ∃ schemas, schemas.length = declarations.length ∧
      texts = List.zipWith declared (declarations.map Declaration.name) schemas := by
  induction h with
  | nil => exact ⟨[], rfl, rfl⟩
  | cons hfirst _ ih =>
    obtain ⟨schema, rfl⟩ := hfirst
    obtain ⟨schemas, hlength, rfl⟩ := ih
    exact ⟨schema :: schemas, congrArg Nat.succ hlength, rfl⟩

/-- Code in a dialect declares the constants of the source. -/
theorem exists_constants_dialect (htarget : target.dialect? = some dialect)
    (h : dialect.generate source = .ok text) :
    ∃ file schemas, SourceFile.read source = some file ∧
      schemas.length = file.declaredNames.length ∧
      text = target.constants file.declaredNames schemas := by
  obtain ⟨model, hmodel, h⟩ := TypeBox.bind_eq_ok.1 h
  cases h
  obtain ⟨file, hread, hitems⟩ := TypeBox.ofSource_ok_iff.1 hmodel
  have hall : List.Forall₂ (fun text found => ∃ schema, text = target.constant found.name schema)
      (model.declarations.map dialect.writeDeclaration) model.declarations := by
    rw [List.forall₂_map_left_iff, List.forall₂_same]
    exact fun found _ => ⟨dialect.writeShape found.shape, declaration_eq htarget _ _⟩
  obtain ⟨schemas, hlength, htexts⟩ := exists_zipWith hall
  have hnames := Schema.names_ofItems hitems
  refine ⟨file, schemas, hread, ?_, ?_⟩
  · rw [hlength, SourceFile.declaredNames, ← hnames, List.length_map]
  · rw [Dialect.emit, htexts, hnames, Target.constants, Target.opening, htarget]
    rfl

/-- Code for a target declares the constants of the source. -/
theorem exists_constants (htarget : target ≠ .types) (h : generate target source = .ok text) :
    ∃ file schemas, SourceFile.read source = some file ∧
      schemas.length = file.declaredNames.length ∧
      text = target.constants file.declaredNames schemas := by
  cases target with
  | types => exact absurd rfl htarget
  | typebox =>
    obtain ⟨file, texts, hread, htexts, rfl⟩ := TypeBox.generate_ok_iff.1 h
    obtain ⟨declarations, hitems, hall⟩ := TypeBox.exists_declarations htexts
    obtain ⟨schemas, hlength, rfl⟩ := exists_zipWith hall
    have hnames := Schema.names_ofItems hitems
    refine ⟨file, schemas, hread, ?_, ?_⟩
    · rw [hlength, SourceFile.declaredNames, ← hnames, List.length_map]
    · rw [hnames]
      rfl
  | zod | valibot | yup | effect | jsonschema => exact exists_constants_dialect rfl h

/-- A flattened source is the text of a file once its queue is empty. -/
theorem Flatten.flatten_ok {flattened : Text} (h : flatten source = .ok flattened) :
    ∃ file state, SourceFile.read source = some file ∧
      (State.ofFile file).flattenFrom 0 (totalWeight file) = .ok state ∧
      flattened = state.render file.text := by
  rw [flatten] at h
  split at h
  · cases h
  next file hread =>
  split at h
  · next text htext =>
    cases h
    obtain ⟨state, hstate, h⟩ := TypeBox.bind_eq_ok.1 htext
    cases h
    exact ⟨file, state, hread, hstate, rfl⟩
  · cases h

end InterfaceSchema
