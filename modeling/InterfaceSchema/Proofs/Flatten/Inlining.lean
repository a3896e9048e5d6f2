import InterfaceSchema.Proofs.Flatten.Outcome

/-!
# Inlining extracted interfaces

A model refers to a declaration by its name. Inlining puts what a declaration
stands for in place of every reference to it, and leaves the declaration out. An
extracted interface stands behind those it refers to, so that the declarations are
inlined from the first to the last, each with what is known of those before it.
-/

namespace InterfaceSchema

/-- What names stand for. -/
abbrev Known := List (Text × SchemaType)

mutual

/-- The type with what is known in place of references to it. -/
def SchemaType.inline (known : Known) : SchemaType → SchemaType
  | .keyword keyword => .keyword keyword
  | .date => .date
  | .literal literal => .literal literal
  | .reference name => (known.lookup name).getD (.reference name)
  | .array item => .array (SchemaType.inline known item)
  | .tuple items => .tuple (SchemaType.inlineAll known items)
  | .union parts => .union (SchemaType.inlineAll known parts)
  | .intersection parts => .intersection (SchemaType.inlineAll known parts)
  | .object fields => .object (Field.inlineAll known fields)
  | .record key value => .record (SchemaType.inline known key) (SchemaType.inline known value)

/-- The types, each inlined. -/
def SchemaType.inlineAll (known : Known) : List SchemaType → List SchemaType
  | [] => []
  | type :: rest => SchemaType.inline known type :: SchemaType.inlineAll known rest

/-- The fields, each with its type inlined. -/
def Field.inlineAll (known : Known) : List Field → List Field
  | [] => []
  | ⟨name, type, optional, readonly⟩ :: rest =>
    ⟨name, SchemaType.inline known type, optional, readonly⟩ :: Field.inlineAll known rest

end

mutual

/-- The names that a type refers to. -/
def SchemaType.references : SchemaType → List Text
  | .keyword _ | .date | .literal _ => []
  | .reference name => [name]
  | .array item => SchemaType.references item
  | .tuple items => SchemaType.referencesOfAll items
  | .union parts => SchemaType.referencesOfAll parts
  | .intersection parts => SchemaType.referencesOfAll parts
  | .object fields => Field.referencesOfAll fields
  | .record key value => SchemaType.references key ++ SchemaType.references value

/-- The names that types refer to. -/
def SchemaType.referencesOfAll : List SchemaType → List Text
  | [] => []
  | type :: rest => SchemaType.references type ++ SchemaType.referencesOfAll rest

/-- The names that the types of fields refer to. -/
def Field.referencesOfAll : List Field → List Text
  | [] => []
  | ⟨_, type, _, _⟩ :: rest => SchemaType.references type ++ Field.referencesOfAll rest

end

/-- The names that the first field refers to, and those of the others. -/
theorem Field.referencesOfAll_cons (field : Field) (rest : List Field) :
    Field.referencesOfAll (field :: rest) =
      field.type.references ++ Field.referencesOfAll rest := by
  cases field
  rfl

namespace Shape

/-- The shape with its types inlined. -/
def inline (known : Known) : Shape → Shape
  | object bases fields =>
    object (SchemaType.inlineAll known bases) (Field.inlineAll known fields)
  | type found => type (SchemaType.inline known found)

/-- The names that a shape refers to. -/
def references : Shape → List Text
  | object bases fields => SchemaType.referencesOfAll bases ++ Field.referencesOfAll fields
  | type found => found.references

/-- The shape as a type. -/
def meaning : Shape → SchemaType
  | object [] fields => .object fields
  | object bases fields => .intersection (bases ++ [.object fields])
  | type found => found

end Shape

/-- The declaration with its types inlined. -/
def Declaration.inline (known : Known) (declaration : Declaration) : Declaration :=
  ⟨declaration.name, declaration.shape.inline known⟩

/-- What is known behind a declaration: what it stands for, if its name is among
those to be inlined. -/
def learn (made : List Text) (known : Known) (declaration : Declaration) : Known :=
  if declaration.name ∈ made then
    (declaration.name, declaration.shape.meaning.inline known) :: known
  else known

namespace Model

/-- The names that the types of a model refer to. -/
def references (model : Model) : List Text :=
  model.declarations.flatMap fun declaration => declaration.shape.references

/-- The model without the declarations of the names `made`, and what they stand for
in place of references to them. -/
def inlined (made : List Text) (model : Model) : Model :=
  ⟨(model.declarations.filter fun declaration => declaration.name ∉ made).map
    (Declaration.inline (model.declarations.foldl (learn made) []))⟩

end Model

section Unknown

variable {known : Known}

mutual

/-- A type that refers to nothing known stays as it is. -/
theorem SchemaType.inline_eq_self : (type : SchemaType) →
    (∀ name ∈ type.references, known.lookup name = none) → type.inline known = type
  | .keyword _, _ | .date, _ | .literal _, _ => rfl
  | .reference name, h => by
    have hname := h name List.mem_cons_self
    rw [SchemaType.inline, hname]
    rfl
  | .array item, h => congrArg SchemaType.array (SchemaType.inline_eq_self item h)
  | .tuple items, h => congrArg SchemaType.tuple (SchemaType.inlineAll_eq_self items h)
  | .union parts, h => congrArg SchemaType.union (SchemaType.inlineAll_eq_self parts h)
  | .intersection parts, h =>
    congrArg SchemaType.intersection (SchemaType.inlineAll_eq_self parts h)
  | .object fields, h => congrArg SchemaType.object (Field.inlineAll_eq_self fields h)
  | .record key value, h => by
    obtain ⟨hkey, hvalue⟩ := List.forall_mem_append.1 h
    rw [SchemaType.inline, SchemaType.inline_eq_self key hkey,
      SchemaType.inline_eq_self value hvalue]

/-- So do types. -/
theorem SchemaType.inlineAll_eq_self : (types : List SchemaType) →
    (∀ name ∈ SchemaType.referencesOfAll types, known.lookup name = none) →
      SchemaType.inlineAll known types = types
  | [], _ => rfl
  | type :: rest, h => by
    obtain ⟨htype, hrest⟩ := List.forall_mem_append.1 h
    rw [SchemaType.inlineAll, SchemaType.inline_eq_self type htype,
      SchemaType.inlineAll_eq_self rest hrest]

/-- So do fields. -/
theorem Field.inlineAll_eq_self : (fields : List Field) →
    (∀ name ∈ Field.referencesOfAll fields, known.lookup name = none) →
      Field.inlineAll known fields = fields
  | [], _ => rfl
  | ⟨_, type, _, _⟩ :: rest, h => by
    obtain ⟨htype, hrest⟩ := List.forall_mem_append.1 h
    rw [Field.inlineAll, SchemaType.inline_eq_self type htype, Field.inlineAll_eq_self rest hrest]

end

/-- So does a declaration. -/
theorem Declaration.inline_eq_self : (declaration : Declaration) →
    (∀ name ∈ declaration.shape.references, known.lookup name = none) →
      declaration.inline known = declaration
  | ⟨name, .object bases fields⟩, h => by
    obtain ⟨hbases, hfields⟩ := List.forall_mem_append.1 h
    rw [Declaration.inline, Shape.inline, SchemaType.inlineAll_eq_self bases hbases,
      Field.inlineAll_eq_self fields hfields]
  | ⟨name, .type found⟩, h => by
    rw [Declaration.inline, Shape.inline, SchemaType.inline_eq_self found h]

end Unknown

namespace Schema

open TypeBox (bind_eq_ok isRecord isRecord_eq)

/-- The field for a property. -/
def fieldOf : Property → Except Unsupported Field
  | ⟨head, none⟩ => .ok ⟨head.key, .keyword .any, head.optional, head.readonly⟩
  | ⟨head, some type⟩ => do
    let type ← ofType type
    .ok ⟨head.key, type, head.optional, head.readonly⟩

/-- The fields are those for the properties, one for each. -/
def FieldsFor (properties : List Property) (fields : List Field) : Prop :=
  List.Forall₂ (fun property field => fieldOf property = .ok field) properties fields

/-- The field for the first property, and those for the others. -/
theorem fieldsOf_cons (property : Property) (rest : List Member) :
    fieldsOf (.property property :: rest) =
      fieldOf property >>= fun first =>
        fieldsOf rest >>= fun others => .ok (first :: others) := by
  obtain ⟨head, _ | type⟩ := property
  · rfl
  · simp only [fieldsOf, fieldOf]
    cases ofType type <;> rfl

/-- The fields of a body are those for its properties. -/
theorem fieldsOf_eq_ok_iff {members : List Member} {fields : List Field} :
    fieldsOf members = .ok fields ↔ FieldsFor (propertiesOf members) fields := by
  induction members generalizing fields with
  | nil =>
    refine Iff.trans ?_ List.forall₂_nil_left_iff.symm
    exact ⟨fun h => (Except.ok.inj h).symm, fun h => congrArg Except.ok h.symm⟩
  | cons member rest ih =>
    cases member with
    | property property =>
      have hproperties :
          propertiesOf (.property property :: rest) = property :: propertiesOf rest := rfl
      rw [hproperties, FieldsFor, List.forall₂_cons_left_iff, fieldsOf_cons, bind_eq_ok]
      refine exists_congr fun first => ?_
      rw [bind_eq_ok]
      constructor
      · rintro ⟨hfirst, others, hothers, h⟩
        cases h
        exact ⟨others, hfirst, ih.1 hothers, rfl⟩
      · rintro ⟨others, hfirst, hothers, rfl⟩
        exact ⟨hfirst, others, ih.2 hothers, rfl⟩
    | index | mapped | other => exact ih

/-- A body with an index signature makes a record of it. -/
theorem exists_record {members : List Member} {schema : SchemaType}
    (hindex : members.countP isIndex ≠ 0) (h : recordOf members = .ok schema) :
    ∃ key value, schema = .record key value := by
  induction members with
  | nil => exact absurd rfl hindex
  | cons member rest ih =>
    cases member with
    | index key value isReadonly span =>
      obtain ⟨first, -, h⟩ := bind_eq_ok.1 h
      obtain ⟨second, -, h⟩ := bind_eq_ok.1 h
      cases h
      exact ⟨first, second, rfl⟩
    | property | mapped | other => exact ih (by simpa [isIndex] using hindex) h

/-- An object type has the fields for its properties, unless it stands for a record
and has none. -/
theorem exists_fields_of_members {members : List Member} {schema : SchemaType}
    (h : ofMembers members = .ok schema) :
    ∃ fields, FieldsFor (propertiesOf members) fields ∧
      (isRecord members = false ∧ schema = .object fields ∨
        isRecord members = true ∧ fields = [] ∧ ∃ key value, schema = .record key value) := by
  obtain ⟨fields, hfields, h⟩ := bind_eq_ok.1 h
  have hfor := fieldsOf_eq_ok_iff.1 hfields
  refine ⟨fields, hfor, ?_⟩
  rw [isRecord_eq hfor.length_eq.symm] at h
  cases hrecord : isRecord members with
  | false =>
    rw [hrecord] at h
    exact .inl ⟨rfl, (Except.ok.inj h).symm⟩
  | true =>
    rw [hrecord] at h
    obtain ⟨hempty, hcount⟩ := Bool.and_eq_true_iff.1 hrecord
    have hnone : fields = [] := by
      rw [List.isEmpty_iff.1 hempty] at hfor
      exact List.forall₂_nil_left_iff.1 hfor
    have hindex : members.countP isIndex ≠ 0 := by
      rw [beq_iff_eq.1 hcount]
      exact Nat.one_ne_zero
    exact .inr ⟨rfl, hnone, exists_record hindex h⟩

/-- An object type that stands for no record is an object with the fields for its
properties. -/
theorem ofMembers_eq {members : List Member} {fields : List Field}
    (hrecord : isRecord members = false) (h : FieldsFor (propertiesOf members) fields) :
    ofMembers members = .ok (.object fields) := by
  refine bind_eq_ok.2 ⟨fields, fieldsOf_eq_ok_iff.2 h, ?_⟩
  rw [isRecord_eq h.length_eq.symm, hrecord]
  rfl

end Schema

end InterfaceSchema
