import InterfaceSchema.Dialect.Basic
import InterfaceSchema.Proofs.Text.Names
import Mathlib.Data.List.Forall2

/-!
# Dialects that write alike

The fixups are meant for code with names that are identifiers, with numbers
that are words, and with no text in quotes that looks like the code they
change. Two dialects are congruent for a relation between texts if each of
their parts makes related texts of related ones. Whatever congruent dialects
write for such a type is related.
-/

namespace InterfaceSchema

namespace Text

/-- Texts that the fixups look for. -/
def marks : List Text := ["z.record", "ES.Record", "@effect/schema", "import y from"]

/-- No text that the fixups look for stands in the text. -/
def Unmarked (text : Text) : Prop := ∀ mark ∈ marks, ¬mark <:+: text

end Text

/-- A literal that the fixups leave alone. -/
def Literal.WellSpelled : Literal → Prop
  | .string value => Text.Unmarked value
  | .number spelling => spelling ≠ [] ∧ ∀ c ∈ spelling, Text.isNumeral c = true
  | .boolean _ => True

/-- A type with names, numbers and quoted texts that the fixups leave alone,
and without empty intersections. -/
inductive SchemaType.WellSpelled : SchemaType → Prop
  | keyword (keyword : Keyword) : WellSpelled (.keyword keyword)
  | date : WellSpelled .date
  | literal {literal : Literal} : literal.WellSpelled → WellSpelled (.literal literal)
  | reference {name : Text} : name.IsDotted → WellSpelled (.reference name)
  | array {item : SchemaType} : WellSpelled item → WellSpelled (.array item)
  | tuple {items : List SchemaType} : (∀ item ∈ items, WellSpelled item) →
    WellSpelled (.tuple items)
  | union {parts : List SchemaType} : (∀ part ∈ parts, WellSpelled part) →
    WellSpelled (.union parts)
  | intersection {parts : List SchemaType} : parts ≠ [] → (∀ part ∈ parts, WellSpelled part) →
    WellSpelled (.intersection parts)
  | object {fields : List Field} : (∀ field ∈ fields, field.name.Unmarked) →
    (∀ field ∈ fields, WellSpelled field.type) → WellSpelled (.object fields)
  | record {key value : SchemaType} : WellSpelled key → WellSpelled value →
    WellSpelled (.record key value)

/-- The types and fields of a declared name are well spelled. -/
def Shape.WellSpelled : Shape → Prop
  | .object bases fields =>
    (∀ base ∈ bases, base.WellSpelled) ∧ (SchemaType.object fields).WellSpelled
  | .type body => body.WellSpelled

/-- All names and types of a model are well spelled. -/
def Model.WellSpelled (model : Model) : Prop :=
  ∀ declaration ∈ model.declarations, declaration.name.IsDotted ∧ declaration.shape.WellSpelled

/-- The declared names of a model consist of characters of names, and its types
are well spelled. -/
def Model.Readable (model : Model) : Prop :=
  ∀ declaration ∈ model.declarations, declaration.name.IsNamed ∧ declaration.shape.WellSpelled

/-- A well spelled model is readable. -/
theorem Model.WellSpelled.readable {model : Model} (h : model.WellSpelled) : model.Readable :=
  fun declaration hdeclaration => (h declaration hdeclaration).imp_left Text.IsDotted.isNamed

/-- Written fields with one name that differ in their values only, which are
related. -/
structure WrittenField.Related (R : Text → Text → Prop) (first second : WrittenField) : Prop where
  key : ∃ name : Text, name.Unmarked ∧ first.key = Text.propertyKey name
  eq : second = { first with value := second.value }
  value : R first.value second.value

namespace Dialect

/-- Each part of two dialects makes related texts of related ones. -/
structure Congruent (R : Text → Text → Prop) (first second : Dialect) : Prop where
  keyword : ∀ keyword, R (first.keyword keyword) (second.keyword keyword)
  date : R first.date second.date
  literal : ∀ literal : Literal, literal.WellSpelled →
    R (first.literal literal) (second.literal literal)
  reference : ∀ name : Text, name.IsDotted → R name name
  array : ∀ {item changed}, R item changed → R (first.array item) (second.array changed)
  tuple : ∀ {items changes}, List.Forall₂ R items changes →
    R (first.tuple items) (second.tuple changes)
  union : ∀ {parts changes}, List.Forall₂ R parts changes →
    R (first.union parts) (second.union changes)
  intersection : ∀ {parts changes}, parts ≠ [] → List.Forall₂ R parts changes →
    R (first.intersection parts) (second.intersection changes)
  object : ∀ {fields changes}, List.Forall₂ (WrittenField.Related R) fields changes →
    R (first.object fields) (second.object changes)
  record : ∀ {key value changed}, R (writeType first key) (writeType second key) → R value changed →
    R (first.record key (writeType first key) value)
      (second.record key (writeType second key) changed)

variable {R : Text → Text → Prop} {first second : Dialect}

/-- Types are written one by one. -/
theorem writeTypes_eq (dialect : Dialect) (types : List SchemaType) :
    writeTypes dialect types = types.map (writeType dialect) := by
  induction types with
  | nil => rfl
  | cons type rest ih => rw [writeTypes, ih, List.map_cons]

/-- Fields are written one by one. -/
theorem writeFields_eq (dialect : Dialect) (fields : List Field) :
    writeFields dialect fields = fields.map fun field =>
      ⟨Text.propertyKey field.name, writeType dialect field.type, field.optional,
        field.readonly⟩ := by
  induction fields with
  | nil => rfl
  | cons field rest ih =>
    obtain ⟨name, type, optional, readonly⟩ := field
    rw [writeFields, ih, List.map_cons]

namespace Congruent

/-- Lists of types that are written alike one by one. -/
theorem forall₂_writeTypes {types : List SchemaType}
    (h : ∀ type ∈ types, R (writeType first type) (writeType second type)) :
    List.Forall₂ R (writeTypes first types) (writeTypes second types) := by
  rw [writeTypes_eq, writeTypes_eq, List.forall₂_map_left_iff, List.forall₂_map_right_iff,
    List.forall₂_same]
  exact h

/-- Lists of fields with types that are written alike one by one. -/
theorem forall₂_writeFields {fields : List Field} (hnames : ∀ field ∈ fields, field.name.Unmarked)
    (h : ∀ field ∈ fields, R (writeType first field.type) (writeType second field.type)) :
    List.Forall₂ (WrittenField.Related R) (writeFields first fields)
      (writeFields second fields) := by
  rw [writeFields_eq, writeFields_eq, List.forall₂_map_left_iff, List.forall₂_map_right_iff,
    List.forall₂_same]
  exact fun field hfield => ⟨⟨field.name, hnames field hfield, rfl⟩, rfl, h field hfield⟩

/-- Congruent dialects write a type alike. -/
theorem writeType (h : Congruent R first second) {type : SchemaType} (htype : type.WellSpelled) :
    R (writeType first type) (writeType second type) := by
  induction htype with
  | keyword keyword =>
    rw [Dialect.writeType, Dialect.writeType]
    exact h.keyword keyword
  | date =>
    rw [Dialect.writeType, Dialect.writeType]
    exact h.date
  | literal hliteral =>
    rw [Dialect.writeType, Dialect.writeType]
    exact h.literal _ hliteral
  | reference hname =>
    rw [Dialect.writeType, Dialect.writeType]
    exact h.reference _ hname
  | array _ ih =>
    rw [Dialect.writeType, Dialect.writeType]
    exact h.array ih
  | tuple _ ih =>
    rw [Dialect.writeType, Dialect.writeType]
    exact h.tuple (forall₂_writeTypes ih)
  | union _ ih =>
    rw [Dialect.writeType, Dialect.writeType]
    exact h.union (forall₂_writeTypes ih)
  | intersection hne _ ih =>
    rw [Dialect.writeType, Dialect.writeType]
    refine h.intersection ?_ (forall₂_writeTypes ih)
    rw [writeTypes_eq]
    simpa using hne
  | object hnames _ ih =>
    rw [Dialect.writeType, Dialect.writeType]
    exact h.object (forall₂_writeFields hnames ih)
  | record _ _ ihkey ihvalue =>
    rw [Dialect.writeType, Dialect.writeType]
    exact h.record ihkey ihvalue

/-- Congruent dialects write the types and fields of a name alike. -/
theorem writeShape (h : Congruent R first second) {shape : Shape} (hshape : shape.WellSpelled) :
    R (writeShape first shape) (writeShape second shape) := by
  cases shape with
  | type type => exact h.writeType hshape
  | object bases fields =>
    obtain ⟨hbases, hfields⟩ := hshape
    have hobject := h.writeType hfields
    rw [Dialect.writeType, Dialect.writeType] at hobject
    rw [Dialect.writeShape, Dialect.writeShape]
    split
    · exact hobject
    · refine h.intersection (by simp) ?_
      exact List.rel_append (forall₂_writeTypes fun base hbase => h.writeType (hbases base hbase))
        (.cons hobject .nil)

end Congruent

end Dialect

end InterfaceSchema
