import InterfaceSchema.Proofs.Dialect.Congruence
import InterfaceSchema.Proofs.Text.Patterns

/-!
# Properties of written code

A property of texts holds of whatever a dialect writes if each part of the
dialect upholds it: it holds of what is written if it holds of the expressions
in it. Most parts put fixed text around and between expressions, in a row or on
lines of their own, so it is enough to know how the property gets along with
these fixed texts.
-/

namespace InterfaceSchema

/-- The text in quotes of a literal. -/
def Literal.quotedTexts : Literal → List Text
  | .string value => [value]
  | .number _ | .boolean _ => []

namespace SchemaType

mutual

/-- The string literals and the names of the fields in a type. -/
def quotedTexts : SchemaType → List Text
  | .keyword _ | .date | .reference _ => []
  | .literal value => value.quotedTexts
  | .array item => quotedTexts item
  | .tuple types | .union types | .intersection types => listTexts types
  | .object fields => fieldTexts fields
  | .record key value => quotedTexts key ++ quotedTexts value

/-- Those in several types. -/
def listTexts : List SchemaType → List Text
  | [] => []
  | type :: rest => quotedTexts type ++ listTexts rest

/-- Those in several fields. -/
def fieldTexts : List Field → List Text
  | [] => []
  | ⟨name, type, _, _⟩ :: rest => name :: (quotedTexts type ++ fieldTexts rest)

end

/-- What holds of the texts of several types holds of those of each. -/
theorem forall_listTexts {Q : Text → Prop} {types : List SchemaType} :
    (∀ text ∈ listTexts types, Q text) ↔
      ∀ type ∈ types, ∀ text ∈ type.quotedTexts, Q text := by
  induction types with
  | nil => simp [listTexts]
  | cons type rest ih => rw [listTexts, List.forall_mem_append, List.forall_mem_cons, ih]

/-- What holds of the texts of several fields holds of the name and the texts of
each. -/
theorem forall_fieldTexts {Q : Text → Prop} {fields : List Field} :
    (∀ text ∈ fieldTexts fields, Q text) ↔
      ∀ field ∈ fields, Q field.name ∧ ∀ text ∈ field.type.quotedTexts, Q text := by
  induction fields with
  | nil => simp [fieldTexts]
  | cons field rest ih =>
    obtain ⟨name, type, optional, readonly⟩ := field
    rw [fieldTexts, List.forall_mem_cons, List.forall_mem_append, List.forall_mem_cons, ih,
      and_assoc]

/-- The fixups leave the quoted texts of a well spelled type alone. -/
theorem WellSpelled.unmarked {type : SchemaType} (h : type.WellSpelled) :
    ∀ text ∈ type.quotedTexts, text.Unmarked := by
  induction h with
  | keyword | date | reference => simp [quotedTexts]
  | @literal value hliteral =>
    rw [quotedTexts]
    cases value with
    | string text => exact List.forall_mem_singleton.2 hliteral
    | number | boolean => simp [Literal.quotedTexts]
  | array _ ih => rwa [quotedTexts]
  | tuple _ ih | union _ ih | intersection _ _ ih =>
    rw [quotedTexts]
    exact forall_listTexts.2 ih
  | object hnames _ ih =>
    rw [quotedTexts]
    exact forall_fieldTexts.2 fun field hfield => ⟨hnames field hfield, ih field hfield⟩
  | record _ _ ihkey ihvalue =>
    rw [quotedTexts]
    exact List.forall_mem_append.2 ⟨ihkey, ihvalue⟩

end SchemaType

/-- The string literals and the names of the fields in what a name stands
for. -/
def Shape.quotedTexts : Shape → List Text
  | .object bases fields => SchemaType.listTexts bases ++ SchemaType.fieldTexts fields
  | .type body => body.quotedTexts

/-- The fixups leave the quoted texts of what a name stands for alone. -/
theorem Shape.WellSpelled.unmarked {shape : Shape} (h : shape.WellSpelled) :
    ∀ text ∈ shape.quotedTexts, text.Unmarked := by
  cases shape with
  | type body => exact SchemaType.WellSpelled.unmarked h
  | object bases fields =>
    have hfields := h.2.unmarked
    rw [SchemaType.quotedTexts] at hfields
    exact List.forall_mem_append.2
      ⟨SchemaType.forall_listTexts.2 fun base hbase => (h.1 base hbase).unmarked, hfields⟩

/-- The string literals and the names of the fields in a model. -/
def Model.quotedTexts (model : Model) : List Text :=
  model.declarations.flatMap fun declaration => declaration.shape.quotedTexts

/-- A written field whose name has one property and whose value has another. -/
structure WrittenField.Upheld (Q P : Text → Prop) (field : WrittenField) : Prop where
  key : ∃ name : Text, Q name ∧ field.key = Text.propertyKey name
  value : P field.value

namespace Dialect

open Layout

/-- Each part of a dialect makes texts with a property of texts with that
property; quoted texts have another one. -/
structure Upholds (Q P : Text → Prop) (dialect : Dialect) : Prop where
  keyword : ∀ keyword, P (dialect.keyword keyword)
  date : P dialect.date
  literal : ∀ literal : Literal, literal.WellSpelled → (∀ text ∈ literal.quotedTexts, Q text) →
    P (dialect.literal literal)
  reference : ∀ name : Text, name.IsDotted → P name
  array : ∀ {item}, P item → P (dialect.array item)
  tuple : ∀ {items : List Text}, (∀ item ∈ items, P item) → P (dialect.tuple items)
  union : ∀ {parts : List Text}, (∀ part ∈ parts, P part) → P (dialect.union parts)
  intersection : ∀ {parts : List Text}, parts ≠ [] → (∀ part ∈ parts, P part) →
    P (dialect.intersection parts)
  object : ∀ {fields : List WrittenField}, (∀ field ∈ fields, field.Upheld Q P) →
    P (dialect.object fields)
  record : ∀ {key value}, P (writeType dialect key) → P value →
    P (dialect.record key (writeType dialect key) value)

namespace Upholds

variable {Q P : Text → Prop} {dialect : Dialect}

/-- Every type of a list is written with the property. -/
theorem forall_writeTypes {types : List SchemaType}
    (h : ∀ type ∈ types, P (dialect.writeType type)) : ∀ text ∈ writeTypes dialect types, P text := by
  rw [writeTypes_eq]
  exact List.forall_mem_map.2 h

/-- Every field of a list is written with the property. -/
theorem forall_writeFields {fields : List Field} (hnames : ∀ field ∈ fields, Q field.name)
    (h : ∀ field ∈ fields, P (dialect.writeType field.type)) :
    ∀ field ∈ writeFields dialect fields, field.Upheld Q P := by
  rw [writeFields_eq]
  exact List.forall_mem_map.2 fun field hfield => ⟨⟨field.name, hnames field hfield, rfl⟩,
    h field hfield⟩

/-- The property holds of what is written for a type. -/
theorem writeType (h : Upholds Q P dialect) {type : SchemaType} (htype : type.WellSpelled)
    (hquoted : ∀ text ∈ type.quotedTexts, Q text) : P (dialect.writeType type) := by
  induction htype with
  | keyword keyword =>
    rw [Dialect.writeType]
    exact h.keyword keyword
  | date =>
    rw [Dialect.writeType]
    exact h.date
  | literal hliteral =>
    rw [SchemaType.quotedTexts] at hquoted
    rw [Dialect.writeType]
    exact h.literal _ hliteral hquoted
  | reference hname =>
    rw [Dialect.writeType]
    exact h.reference _ hname
  | array _ ih =>
    rw [SchemaType.quotedTexts] at hquoted
    rw [Dialect.writeType]
    exact h.array (ih hquoted)
  | tuple _ ih =>
    rw [SchemaType.quotedTexts] at hquoted
    rw [Dialect.writeType]
    exact h.tuple (forall_writeTypes fun item hitem =>
      ih item hitem (SchemaType.forall_listTexts.1 hquoted item hitem))
  | union _ ih =>
    rw [SchemaType.quotedTexts] at hquoted
    rw [Dialect.writeType]
    exact h.union (forall_writeTypes fun part hpart =>
      ih part hpart (SchemaType.forall_listTexts.1 hquoted part hpart))
  | intersection hne _ ih =>
    rw [SchemaType.quotedTexts] at hquoted
    rw [Dialect.writeType]
    refine h.intersection ?_ (forall_writeTypes fun part hpart =>
      ih part hpart (SchemaType.forall_listTexts.1 hquoted part hpart))
    rw [writeTypes_eq]
    simpa using hne
  | object _ _ ih =>
    rw [SchemaType.quotedTexts] at hquoted
    rw [Dialect.writeType]
    have hfields := SchemaType.forall_fieldTexts.1 hquoted
    exact h.object (forall_writeFields (fun field hfield => (hfields field hfield).1)
      fun field hfield => ih field hfield (hfields field hfield).2)
  | record _ _ ihkey ihvalue =>
    rw [SchemaType.quotedTexts, List.forall_mem_append] at hquoted
    rw [Dialect.writeType]
    exact h.record (ihkey hquoted.1) (ihvalue hquoted.2)

/-- The property holds of what is written for what a name stands for. -/
theorem writeShape (h : Upholds Q P dialect) {shape : Shape} (hshape : shape.WellSpelled)
    (hquoted : ∀ text ∈ shape.quotedTexts, Q text) : P (dialect.writeShape shape) := by
  cases shape with
  | type type => exact h.writeType hshape hquoted
  | object bases fields =>
    obtain ⟨hbases, hfields⟩ := hshape
    rw [Shape.quotedTexts, List.forall_mem_append] at hquoted
    have hobject : P (dialect.writeType (.object fields)) :=
      h.writeType hfields (by rw [SchemaType.quotedTexts]; exact hquoted.2)
    rw [Dialect.writeType] at hobject
    rw [Dialect.writeShape]
    split
    · exact hobject
    · have hparts := forall_writeTypes fun base hbase =>
        h.writeType (hbases base hbase) (SchemaType.forall_listTexts.1 hquoted.1 base hbase)
      exact h.intersection (by simp)
        (List.forall_mem_append.2 ⟨hparts, List.forall_mem_singleton.2 hobject⟩)

end Upholds

section Laying

variable {P Q : Text → Prop} {opening closing middle item second fixed text : Text}
  {items rows : List Text}

/-- The property holds of a text with the fixed text before it. -/
def Opens (P : Text → Prop) (fixed : Text) : Prop := ∀ {second : Text}, P second → P (fixed ++ second)

/-- The property holds of two texts with the fixed text between them. -/
def Joins (P : Text → Prop) (fixed : Text) : Prop :=
  ∀ {first second : Text}, P first → P second → P (first ++ (fixed ++ second))

/-- A property that is kept when expressions are laid out in rows and on lines
of their own. -/
structure Layable (P : Text → Prop) : Prop where
  nil : P []
  shift : ∀ {text}, P text → P (shift text)
  line : Opens P "\n  "
  comma : Joins P ","
  row : Joins P ", "
  colon : Joins P ": "

/-- The property holds of the text, which does not end with a line feed. -/
def Bare (P : Text → Prop) (text : Text) : Prop :=
  P text ∧ text.getLast?.any (fun c => c != '\n') = true

/-- What does not end with a line feed is not empty. -/
theorem Bare.line (h : Bare P text) : text ≠ [] ∧ text.getLast? ≠ some '\n' := by
  obtain ⟨c, hc, hline⟩ := Option.any_eq_true _ _ |>.1 h.2
  refine ⟨?_, ?_⟩
  · rintro rfl
    cases hc
  · rw [hc]
    rintro heq
    rw [Option.some.inj heq] at hline
    exact absurd hline (by decide)

/-- The end of a text is the end of what stands last in it. -/
theorem any_getLast?_append {p : Char → Bool} (first : Text)
    (h : second.getLast?.any p = true) : (first ++ second).getLast?.any p = true := by
  obtain ⟨c, hc, hp⟩ := Option.any_eq_true _ _ |>.1 h
  rw [List.getLast?_append, hc]
  exact hp

/-- The lines of a block end with the end of its closing line. -/
theorem any_getLast?_blockLines {p : Char → Bool} (rows : List Text)
    (h : closing.getLast?.any p = true) : (Layout.blockLines closing rows).getLast?.any p = true := by
  obtain ⟨before, hbefore⟩ := suffix_blockLines closing rows
  rw [← hbefore]
  exact any_getLast?_append _ h

/-- Characters of names end with no line feed. -/
theorem getLast?_named {name : Text} (hname : name.IsNamed) :
    name.getLast?.any (fun c => c != '\n') = true := by
  obtain ⟨last, hlast⟩ := Option.isSome_iff_exists.1 (List.getLast?_isSome.2 hname.1)
  have hnamed := hname.2 last (List.mem_of_getLast? hlast)
  rw [hlast, Option.any_some, bne_iff_ne]
  rintro rfl
  exact absurd hnamed (by decide)

/-- A name ends with no line feed. -/
theorem getLast?_dotted {name : Text} (hname : name.IsDotted) :
    name.getLast?.any (fun c => c != '\n') = true := getLast?_named hname.isNamed

/-- The property holds of an expression with fixed text around it. -/
theorem Layable.between (h : Layable P) (hopening : Opens P opening) (hitem : P item)
    (hclosing : Joins P closing) (hlast : closing.getLast?.any (fun c => c != '\n') = true) :
    Bare P (opening ++ item ++ closing) := by
  have hend := hclosing hitem h.nil
  rw [List.append_nil] at hend
  rw [List.append_assoc]
  exact ⟨hopening hend, any_getLast?_append _ (any_getLast?_append _ hlast)⟩

/-- The property holds of two expressions with fixed text around and between
them. -/
theorem Layable.pair (h : Layable P) (hopening : Opens P opening) (hitem : P item)
    (hmiddle : Joins P middle) (hsecond : P second) (hclosing : Joins P closing)
    (hlast : closing.getLast?.any (fun c => c != '\n') = true) :
    Bare P (opening ++ item ++ middle ++ second ++ closing) := by
  have hbetween := h.between hopening (hmiddle hitem hsecond) hclosing hlast
  simpa only [List.append_assoc] using hbetween

/-- The property holds of a row of expressions. -/
theorem Layable.commas (h : Layable P) (hitems : ∀ item ∈ items, P item) : P (commas items) := by
  induction items with
  | nil => exact h.nil
  | cons item rest ih =>
    obtain ⟨hfirst, hrest⟩ := List.forall_mem_cons.1 hitems
    cases rest with
    | nil => simpa [Dialect.commas] using hfirst
    | cons second more =>
      rw [Dialect.commas, Text.joinWith_cons_cons]
      exact h.row hfirst (ih hrest)

/-- The property holds of the lines of a block. -/
theorem Layable.blockLines (h : Layable P) (hrows : ∀ row ∈ rows, P row) (hclosing : P closing)
    (hend : Joins P ("\n" ++ closing)) : P (blockLines closing rows) := by
  fun_induction Layout.blockLines closing rows with
  | case1 => exact hclosing
  | case2 row =>
    have hrow := h.shift (hrows row List.mem_cons_self)
    have hlast := hend hrow h.nil
    rw [List.append_nil] at hlast
    exact h.line hlast
  | case3 row rest hrest ih =>
    obtain ⟨hrow, hmore⟩ := List.forall_mem_cons.1 hrows
    exact h.line (h.comma (h.shift hrow) (ih hmore))

/-- The property holds of a block. -/
theorem Layable.block (h : Layable P) (hopening : Opens P opening)
    (hrows : ∀ row ∈ rows, Bare P row) (hclosing : Bare P closing)
    (hend : Joins P ("\n" ++ closing)) : Bare P (block opening rows closing) := by
  obtain ⟨hne, hlast⟩ := hclosing.line
  rw [block_eq opening (fun row hrow => (hrows row hrow).line) hne hlast]
  exact ⟨hopening (h.blockLines (fun row hrow => (hrows row hrow).1) hclosing.1 hend),
    any_getLast?_append _ (any_getLast?_blockLines rows hclosing.2)⟩

/-- The property holds of the entries for fields. -/
theorem Layable.entries (h : Layable P) (hkey : ∀ {name : Text}, Q name → P (Text.propertyKey name))
    {expression : WrittenField → Text} {fields : List WrittenField}
    (hfields : ∀ field ∈ fields, field.Upheld Q (Bare P))
    (hvalue : ∀ field : WrittenField, Bare P field.value → Bare P (expression field)) :
    ∀ entry ∈ entries expression fields, Bare P entry := by
  refine List.forall_mem_map.2 fun field hfield => ?_
  obtain ⟨⟨name, hname, heq⟩, hexpression⟩ := hfields field hfield
  obtain ⟨hholds, hlast⟩ := hvalue field hexpression
  rw [heq]
  exact ⟨h.colon (hkey hname) hholds, any_getLast?_append _ (any_getLast?_append _ hlast)⟩

/-- The property holds of joined expressions if it holds of any two of them
joined. -/
theorem forall_chain {join : Text → Text → Text}
    (hjoin : ∀ {left right}, P left → P right → P (join left right)) {parts : List Text}
    (hne : parts ≠ []) (hparts : ∀ part ∈ parts, P part) : P (chain join parts) := by
  obtain ⟨first, rest, rfl⟩ := List.exists_cons_of_ne_nil hne
  obtain ⟨hfirst, hrest⟩ := List.forall_mem_cons.1 hparts
  rw [chain]
  clear hparts hne
  induction rest generalizing first with
  | nil => exact hfirst
  | cons part rest ih =>
    obtain ⟨hpart, hmore⟩ := List.forall_mem_cons.1 hrest
    exact ih (join first part) (hjoin hfirst hpart) hmore

end Laying

end Dialect

end InterfaceSchema
