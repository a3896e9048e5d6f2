import InterfaceSchema.Dialect.JsonSchema
import InterfaceSchema.Proofs.Dialect.Upholding

/-!
# Types with conditions on their spelling

What dialects write depends on the spelling of names, literals and fields. A condition
on each of the three makes a condition on types. What a dialect writes for such types
has a property if each part of the dialect keeps it, also where nothing is written.
-/

namespace InterfaceSchema

section Conditions

variable (reference : Text → Prop) (literal : Literal → Prop) (key : Text → Prop)

/-- A type whose references, literals and field names fulfil their conditions. -/
inductive SchemaType.Spelled : SchemaType → Prop
  | keyword (keyword : Keyword) : Spelled (.keyword keyword)
  | date : Spelled .date
  | literal {value : Literal} : literal value → Spelled (.literal value)
  | reference {name : Text} : reference name → Spelled (.reference name)
  | array {item : SchemaType} : Spelled item → Spelled (.array item)
  | tuple {items : List SchemaType} : (∀ item ∈ items, Spelled item) → Spelled (.tuple items)
  | union {parts : List SchemaType} : (∀ part ∈ parts, Spelled part) → Spelled (.union parts)
  | intersection {parts : List SchemaType} : (∀ part ∈ parts, Spelled part) →
    Spelled (.intersection parts)
  | object {fields : List Field} : (∀ field ∈ fields, key field.name) →
    (∀ field ∈ fields, Spelled field.type) → Spelled (.object fields)
  | record {key value : SchemaType} : Spelled key → Spelled value → Spelled (.record key value)

/-- The types and fields of a declared name fulfil the conditions. -/
def Shape.Spelled : Shape → Prop
  | .object bases fields => (∀ base ∈ bases, base.Spelled reference literal key) ∧
    (SchemaType.object fields).Spelled reference literal key
  | .type body => body.Spelled reference literal key

namespace Dialect

/-- Each part of a dialect keeps a property of texts where names, literals and fields
fulfil their conditions. -/
structure Keeps (P : Text → Prop) (dialect : Dialect) : Prop where
  keyword : ∀ keyword, P (dialect.keyword keyword)
  date : P dialect.date
  literal : ∀ value, literal value → P (dialect.literal value)
  reference : ∀ name, reference name → P name
  array : ∀ {item}, P item → P (dialect.array item)
  tuple : ∀ {items : List Text}, (∀ item ∈ items, P item) → P (dialect.tuple items)
  union : ∀ {parts : List Text}, (∀ part ∈ parts, P part) → P (dialect.union parts)
  intersection : ∀ {parts : List Text}, (∀ part ∈ parts, P part) →
    P (dialect.intersection parts)
  object : ∀ {fields : List WrittenField}, (∀ field ∈ fields, field.Upheld key P) →
    P (dialect.object fields)
  record : ∀ {type written value}, P written → P value → P (dialect.record type written value)

end Dialect

end Conditions

namespace Dialect.Keeps

variable {reference : Text → Prop} {literal : Literal → Prop} {key : Text → Prop}
  {P : Text → Prop} {dialect : Dialect}

/-- What is kept holds of a written type. -/
theorem writeType (h : Keeps reference literal key P dialect) {type : SchemaType}
    (htype : type.Spelled reference literal key) : P (dialect.writeType type) := by
  induction htype with
  | keyword keyword =>
    rw [Dialect.writeType]
    exact h.keyword keyword
  | date =>
    rw [Dialect.writeType]
    exact h.date
  | literal hvalue =>
    rw [Dialect.writeType]
    exact h.literal _ hvalue
  | reference hname =>
    rw [Dialect.writeType]
    exact h.reference _ hname
  | array _ ih =>
    rw [Dialect.writeType]
    exact h.array ih
  | tuple _ ih =>
    rw [Dialect.writeType]
    exact h.tuple (Upholds.forall_writeTypes ih)
  | union _ ih =>
    rw [Dialect.writeType]
    exact h.union (Upholds.forall_writeTypes ih)
  | intersection _ ih =>
    rw [Dialect.writeType]
    exact h.intersection (Upholds.forall_writeTypes ih)
  | object hnames _ ih =>
    rw [Dialect.writeType]
    exact h.object (Upholds.forall_writeFields hnames ih)
  | record _ _ ihkey ihvalue =>
    rw [Dialect.writeType]
    exact h.record ihkey ihvalue

/-- What is kept holds of what is written for what a name stands for. -/
theorem writeShape (h : Keeps reference literal key P dialect) {shape : Shape}
    (hshape : shape.Spelled reference literal key) : P (dialect.writeShape shape) := by
  cases shape with
  | type type => exact h.writeType hshape
  | object bases fields =>
    obtain ⟨hbases, hfields⟩ := hshape
    have hobject := h.writeType hfields
    rw [Dialect.writeType] at hobject
    rw [Dialect.writeShape]
    split
    · exact hobject
    · have hparts := Upholds.forall_writeTypes fun base hbase => h.writeType (hbases base hbase)
      exact h.intersection
        (List.forall_mem_append.2 ⟨hparts, List.forall_mem_singleton.2 hobject⟩)

end Dialect.Keeps

namespace Dialect

variable {name : Text}

/-- A decimal number consists of characters of names. -/
theorem isNamed_decimal (n : Nat) : (decimal n).IsNamed := by
  refine ⟨Nat.toDigits_ne_nil, fun c hc => Calls.startsName_of_isAlphanum ?_⟩
  have hdigit := Nat.isDigit_of_mem_toDigits (by decide) (by decide) hc
  simp [Char.isAlphanum, hdigit]

/-- No identifier starts with a quote. -/
theorem head?_ne_quote (h : Text.isIdentifier name = true) : name.head? ≠ some '\'' := fun hhead =>
  absurd (Text.startsName_of_isDotted (Text.isDotted_of_isIdentifier h) (List.mem_of_head? hhead))
    (by decide)

/-- The name of a required field stands in quotes, whatever it looks like as a key. -/
theorem jsonRequiredName_eq (name value : Text) (optional readonly : Bool) :
    jsonRequiredName ⟨Text.propertyKey name, value, optional, readonly⟩ = Text.quote name := by
  rw [jsonRequiredName, Text.propertyKey]
  by_cases hidentifier : Text.isIdentifier name = true
  · rw [if_pos hidentifier, if_neg (head?_ne_quote hidentifier)]
  · rw [if_neg hidentifier]
    rfl

end Dialect

end InterfaceSchema
