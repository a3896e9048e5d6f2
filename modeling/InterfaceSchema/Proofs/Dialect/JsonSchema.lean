import InterfaceSchema.Dialect.JsonSchema
import InterfaceSchema.Proofs.Dialect.Spelling
import InterfaceSchema.Proofs.Text.ObjectLiterals

/-!
# What a JSON Schema denotes

A written type is an object literal. Read as such, it gives what the type means as a JSON
Schema: objects list their fields and those that are not optional, tuples fix their
length, and types within types are found where they belong.
-/

namespace InterfaceSchema

open ObjectLiteral Dialect

/-- A literal that is read back: a string on one line, or a number that is a word. -/
def Literal.Legible : Literal → Prop
  | .string value => value.OneLine
  | .number spelling => spelling ≠ [] ∧ ∀ c ∈ spelling, Text.isNumeral c = true
  | .boolean _ => True

/-- A type that is read back: names are made up of identifiers, numbers are words, and
strings and names of fields stand on one line. -/
abbrev SchemaType.Legible (type : SchemaType) : Prop :=
  type.Spelled Text.IsDotted Literal.Legible Text.OneLine

namespace JsonSchema

/-- The schema of a keyword. -/
def ofKeyword : Keyword → Datum
  | .string => .object [⟨"type", .text "string"⟩]
  | .number => .object [⟨"type", .text "number"⟩]
  | .boolean => .object [⟨"type", .text "boolean"⟩]
  | .bigint => .object [⟨"type", .text "integer"⟩]
  | .object => .object [⟨"type", .text "object"⟩]
  | .null => .object [⟨"type", .text "null"⟩]
  | .undefined | .void | .never => .object [⟨"not", .object []⟩]
  | .symbol | .any | .unknown => .object []

/-- The value of a literal. -/
def ofLiteral : Literal → Datum
  | .string value => .text value
  | .number spelling => .word spelling
  | .boolean true => .word "true"
  | .boolean false => .word "false"

/-- The entry that lists the fields that are not optional, if there are any. -/
def required (fields : List Field) : List DatumEntry :=
  let names := (fields.filter fun field => !field.optional).map Field.name
  if names.isEmpty then [] else [⟨"required", .list (names.map .text)⟩]

mutual

/-- The schema of a type. A reference is a word. -/
def ofType : SchemaType → Datum
  | .keyword keyword => ofKeyword keyword
  | .date => .object [⟨"type", .text "string"⟩, ⟨"format", .text "date-time"⟩]
  | .literal value => .object [⟨"const", ofLiteral value⟩]
  | .reference name => .word name
  | .array item => .object [⟨"type", .text "array"⟩, ⟨"items", ofType item⟩]
  | .tuple items => .object [⟨"type", .text "array"⟩, ⟨"prefixItems", .list (ofTypes items)⟩,
      ⟨"minItems", .word (decimal items.length)⟩, ⟨"maxItems", .word (decimal items.length)⟩]
  | .union parts => .object [⟨"anyOf", .list (ofTypes parts)⟩]
  | .intersection parts => .object [⟨"allOf", .list (ofTypes parts)⟩]
  | .object fields => .object
      (⟨"type", .text "object"⟩ :: ⟨"properties", .object (ofFields fields)⟩ :: required fields)
  | .record _ value => .object [⟨"type", .text "object"⟩, ⟨"additionalProperties", ofType value⟩]

/-- The schemas of types, in order. -/
def ofTypes : List SchemaType → List Datum
  | [] => []
  | type :: rest => ofType type :: ofTypes rest

/-- The schemas of fields under their names, in order. -/
def ofFields : List Field → List DatumEntry
  | [] => []
  | ⟨name, type, _, _⟩ :: rest => ⟨name, ofType type⟩ :: ofFields rest

end

/-- The schemas of types are those of each of them. -/
theorem ofTypes_eq (types : List SchemaType) : ofTypes types = types.map ofType := by
  induction types with
  | nil => rfl
  | cons type rest ih => rw [ofTypes, ih, List.map_cons]

/-- Every field has one entry. -/
theorem ofFields_eq (fields : List Field) :
    ofFields fields = fields.map fun field => ⟨field.name, ofType field.type⟩ := by
  induction fields with
  | nil => rfl
  | cons field rest ih =>
    obtain ⟨name, type, optional, readonly⟩ := field
    rw [ofFields, ih, List.map_cons]

end JsonSchema

namespace ObjectLiteral

/-- The text has these lexemes and ends with no line feed. -/
def Denotes (text : Text) (found : List Lexeme) : Prop :=
  Bare (fun text => lexemes? text = some found) text

/-- The text has the lexemes of an entry. -/
def DenotesEntry (text : Text) (entry : DatumEntry) : Prop :=
  Denotes text (keyLexeme entry.key :: .colon :: entry.value.lexemes)

section Blocks

variable {opening closing text : Text} {rows : List Text} {founds : List (List Lexeme)}
  {found : List Lexeme} {first last : Lexeme}

/-- Items have the lexemes of each of them. -/
theorem itemLexemes_eq (items : List Datum) :
    Datum.itemLexemes items = items.map Datum.lexemes := by
  induction items with
  | nil => rfl
  | cons item rest ih => rw [Datum.itemLexemes, ih, List.map_cons]

/-- Entries have the lexemes of each of them. -/
theorem entryLexemes_eq (entries : List DatumEntry) : Datum.entryLexemes entries =
    entries.map fun entry => keyLexeme entry.key :: .colon :: entry.value.lexemes := by
  induction entries with
  | nil => rfl
  | cons entry rest ih =>
    obtain ⟨key, value⟩ := entry
    rw [Datum.entryLexemes, ih, List.map_cons]

/-- The lines of a block have the lexemes of its rows with commas between them. -/
theorem firm_blockLines (hrows : List.Forall₂ Denotes rows founds) (hne : rows ≠ [])
    (hclosing : Firm closing found) : Firm (Layout.blockLines closing rows) (row founds ++ found) := by
  have hmargin : Firm "\n  " [] := rfl
  induction hrows with
  | nil => exact absurd rfl hne
  | @cons text lexemes rest others htext hrest ih =>
    have hshift : lexemes? (Layout.shift text) = some lexemes := by
      rw [lexemes?_shift]
      exact htext.1
    cases hrest with
    | nil =>
      have hend : Firm ("\n" ++ closing) found := Firm.append (rfl : Firm "\n" []) hclosing
      exact hmargin.append (firm_append hshift hend ⟨'\n', closing, rfl, rfl⟩)
    | @cons second secondLexemes rest others hsecond hrest =>
      have hcomma : Firm "," [.comma] := rfl
      have hmore := hcomma.append (ih (List.cons_ne_nil _ _))
      have hall := hmargin.append (firm_append hshift hmore ⟨',', _, rfl, rfl⟩)
      rw [row_cons_cons, List.append_assoc]
      exact hall

/-- A block has the lexemes of its rows with commas between them, and brackets around. -/
theorem denotes_block (hopening : Firm opening [first]) (hrows : List.Forall₂ Denotes rows founds)
    (hclosing : Firm closing [last]) (hlast : closing.getLast?.any (fun c => c != '\n') = true) :
    Denotes (Layout.block opening rows closing) (first :: (row founds ++ [last])) := by
  have hend : Bare (fun _ => True) closing := ⟨trivial, hlast⟩
  have hbare : ∀ row ∈ rows, row ≠ [] ∧ row.getLast? ≠ some '\n' :=
    ((List.forall₂_and_left ..).1 (hrows.imp fun _ _ hrow => ⟨hrow.line, hrow⟩)).1
  have hlines : Firm (Layout.blockLines closing rows) (row founds ++ [last]) := by
    by_cases hne : rows = []
    · subst hne
      cases hrows
      exact hclosing
    · exact firm_blockLines hrows hne hclosing
  rw [Layout.block_eq opening hbare hend.line.1 hend.line.2]
  exact ⟨(hopening.append hlines).lexemes?,
    any_getLast?_append _ (any_getLast?_blockLines rows hlast)⟩

/-- An object of rows that are entries. -/
theorem denotes_object {entries : List DatumEntry}
    (h : List.Forall₂ DenotesEntry rows entries) :
    Denotes (jsonObject rows) (Datum.object entries).lexemes := by
  rw [Datum.lexemes, entryLexemes_eq]
  refine denotes_block rfl ?_ rfl rfl
  exact List.forall₂_map_right_iff.2 h

/-- A list of rows that are items. -/
theorem denotes_list {items : List Datum}
    (h : List.Forall₂ (fun text item => Denotes text item.lexemes) rows items) :
    Denotes (jsonList rows) (Datum.list items).lexemes := by
  rw [Datum.lexemes, itemLexemes_eq]
  refine denotes_block rfl ?_ rfl rfl
  exact List.forall₂_map_right_iff.2 h

/-- An entry with a fixed key. -/
theorem denotesEntry_of_firm (opening key : Text) {value : Datum}
    (hkey : Firm opening [keyLexeme key, .colon]) (h : Denotes text value.lexemes) :
    DenotesEntry (opening ++ text) ⟨key, value⟩ :=
  ⟨hkey.followed h.1, any_getLast?_append _ h.2⟩

end Blocks

end ObjectLiteral

namespace JsonSchema

section Types

variable {fields : List Field} {types : List SchemaType} {names : List Text}

/-- Keywords are read back. -/
theorem denotes_keyword (keyword : Keyword) :
    Denotes (jsonSchema.keyword keyword) (ofKeyword keyword).lexemes := by
  cases keyword <;> exact ⟨rfl, rfl⟩

/-- A literal has the lexeme of its value. -/
theorem lexemes?_literalValue {value : Literal} (h : value.Legible) :
    lexemes? (literalValue value) = some (ofLiteral value).lexemes := by
  cases value with
  | string text => exact (firm_quote h).lexemes?
  | number spelling =>
    obtain ⟨hne, hnumeral⟩ := h
    exact lexemes?_word hne fun c hc => isWordPart_of_isNumeral (hnumeral c hc)
  | boolean truth => cases truth <;> rfl

/-- A literal is read back. -/
theorem denotes_literal {value : Literal} (h : value.Legible) :
    Denotes (jsonSchema.literal value) (Datum.object [⟨"const", ofLiteral value⟩]).lexemes := by
  have hopening : Firm "\x7b const: " [.openObject, .word "const", .colon] := rfl
  have hclosing : Firm " \x7d" [.closeObject] := rfl
  have hvalue := firm_append (lexemes?_literalValue h) hclosing ⟨' ', _, rfl, rfl⟩
  have hall := (hopening.append hvalue).lexemes?
  refine ⟨?_, any_getLast?_append _ rfl⟩
  rw [← List.append_assoc] at hall
  exact hall

/-- A length is one word. -/
theorem denotes_decimal (n : Nat) : Denotes (decimal n) (Datum.word (decimal n)).lexemes := by
  obtain ⟨hne, hnamed⟩ := isNamed_decimal n
  exact ⟨lexemes?_word hne fun c hc => isWordPart_of_named (hnamed c hc),
    getLast?_named (isNamed_decimal n)⟩

/-- Names in quotes are read back, with commas between them. -/
theorem firm_names (h : ∀ name ∈ names, Text.OneLine name) :
    Firm (commas (names.map Text.quote)) (row (Datum.itemLexemes (names.map .text))) := by
  rw [itemLexemes_eq, List.map_map]
  induction names with
  | nil => rfl
  | cons name rest ih =>
    obtain ⟨hname, hrest⟩ := List.forall_mem_cons.1 h
    have hquoted := firm_quote hname
    cases rest with
    | nil =>
      rw [List.map_singleton, commas, Text.joinWith_singleton]
      exact hquoted
    | cons second more =>
      have hcomma : Firm ", " [.comma] := rfl
      rw [List.map_cons, List.map_cons, commas, Text.joinWith_cons_cons]
      exact hquoted.append (hcomma.append (ih hrest))

/-- Types are read back one by one. -/
theorem denotes_types (h : ∀ type ∈ types, Denotes (jsonSchema.writeType type) (ofType type).lexemes) :
    List.Forall₂ (fun text item => Denotes text item.lexemes) (jsonSchema.writeTypes types)
      (ofTypes types) := by
  rw [writeTypes_eq, ofTypes_eq, List.forall₂_map_left_iff, List.forall₂_map_right_iff,
    List.forall₂_same]
  exact h

/-- Fields are read back one by one. -/
theorem denotes_fields (hnames : ∀ field ∈ fields, field.name.OneLine)
    (h : ∀ field ∈ fields, Denotes (jsonSchema.writeType field.type) (ofType field.type).lexemes) :
    List.Forall₂ DenotesEntry (entries WrittenField.value (jsonSchema.writeFields fields))
      (ofFields fields) := by
  rw [writeFields_eq, ofFields_eq, entries, List.map_map, List.forall₂_map_left_iff,
    List.forall₂_map_right_iff, List.forall₂_same]
  intro field hfield
  have hkey := lexemes?_propertyKey (hnames field hfield)
  have hcolon : Firm ": " [.colon] := rfl
  have hentry := denotesEntry_of_firm _ field.name
    (firm_append hkey hcolon ⟨':', _, rfl, rfl⟩) (h field hfield)
  rw [List.append_assoc] at hentry
  exact hentry

/-- The list of required fields is read back, and left out with them. -/
theorem denotes_required (h : ∀ field ∈ fields, field.name.OneLine) :
    List.Forall₂ DenotesEntry
      (let required := ((jsonSchema.writeFields fields).filter fun field => !field.optional).map
          jsonRequiredName
        if required.isEmpty then [] else ["required: [" ++ commas required ++ "]"])
      (required fields) := by
  have hnames : ((jsonSchema.writeFields fields).filter fun field => !field.optional).map
      jsonRequiredName =
        ((fields.filter fun field => !field.optional).map Field.name).map Text.quote := by
    rw [writeFields_eq, List.filter_map, List.map_map, List.map_map]
    exact List.map_congr_left fun field _ => jsonRequiredName_eq ..
  rw [hnames, required]
  generalize hrequired : (fields.filter fun field => !field.optional).map Field.name = names
  have hlines : ∀ name ∈ names, name.OneLine := by
    rw [← hrequired]
    exact List.forall_mem_map.2 fun field hfield => h field (List.mem_of_mem_filter hfield)
  cases names with
  | nil => exact .nil
  | cons name rest =>
    have hopening : Firm "required: [" [.word "required", .colon, .openList] := rfl
    have hclosing : Firm "]" [.closeList] := rfl
    have hall := ((hopening.append (firm_names hlines)).append hclosing).lexemes?
    refine .cons ⟨?_, any_getLast?_append _ rfl⟩ .nil
    refine hall.trans (congrArg some ?_)
    rw [Datum.lexemes, List.append_assoc]
    rfl

/-- A written type has the lexemes of its schema. -/
theorem denotes_writeType {type : SchemaType} (h : type.Legible) :
    Denotes (jsonSchema.writeType type) (ofType type).lexemes := by
  have harray : DenotesEntry "type: 'array'" ⟨"type", .text "array"⟩ := ⟨rfl, rfl⟩
  have hobject : DenotesEntry "type: 'object'" ⟨"type", .text "object"⟩ := ⟨rfl, rfl⟩
  induction h with
  | keyword keyword =>
    rw [writeType, ofType]
    exact denotes_keyword keyword
  | date =>
    rw [writeType, ofType]
    exact ⟨rfl, rfl⟩
  | literal hvalue =>
    rw [writeType, ofType]
    exact denotes_literal hvalue
  | reference hname =>
    rw [writeType, ofType, Datum.lexemes]
    exact ⟨lexemes?_dotted hname, getLast?_dotted hname⟩
  | array _ ih =>
    have hitem := denotesEntry_of_firm "items: " "items" rfl ih
    rw [writeType, ofType]
    exact denotes_object (.cons harray (.cons hitem .nil))
  | @tuple items _ ih =>
    have hitems := denotesEntry_of_firm "prefixItems: " "prefixItems" rfl
      (denotes_list (denotes_types ih))
    have hlength : (jsonSchema.writeTypes items).length = items.length := by
      rw [writeTypes_eq, List.length_map]
    have hmin := denotesEntry_of_firm "minItems: " "minItems" rfl (denotes_decimal items.length)
    have hmax := denotesEntry_of_firm "maxItems: " "maxItems" rfl (denotes_decimal items.length)
    rw [writeType, ofType]
    rw [← hlength] at hmin hmax ⊢
    exact denotes_object (.cons harray (.cons hitems (.cons hmin (.cons hmax .nil))))
  | union _ ih =>
    have hparts := denotesEntry_of_firm "anyOf: " "anyOf" rfl (denotes_list (denotes_types ih))
    rw [writeType, ofType]
    exact denotes_object (.cons hparts .nil)
  | intersection _ ih =>
    have hparts := denotesEntry_of_firm "allOf: " "allOf" rfl (denotes_list (denotes_types ih))
    rw [writeType, ofType]
    exact denotes_object (.cons hparts .nil)
  | object hnames _ ih =>
    have hproperties := denotesEntry_of_firm "properties: " "properties" rfl
      (denotes_object (denotes_fields hnames ih))
    rw [writeType, ofType]
    exact denotes_object (.cons hobject (.cons hproperties (denotes_required hnames)))
  | record _ _ _ ih =>
    have hvalue := denotesEntry_of_firm "additionalProperties: " "additionalProperties" rfl ih
    rw [writeType, ofType]
    exact denotes_object (.cons hobject (.cons hvalue .nil))

end Types

/-- Read as an object literal, what is written for a type denotes its schema. -/
theorem read?_writeType {type : SchemaType} (h : type.Legible) :
    read? (jsonSchema.writeType type) = some (ofType type) :=
  read?_of_lexemes? (denotes_writeType h).1

/-- A key and a string that have to be escaped, an optional field and types within types. -/
theorem read?_writeType_nested :
    read? (jsonSchema.writeType (.object
      [⟨"it's", .tuple [.literal (.number "1.5e+3"), .literal (.string "\\")], true, false⟩,
        ⟨"next", .union [.keyword .null, .array (.object [])], false, false⟩])) =
      some (.object [⟨"type", .text "object"⟩,
        ⟨"properties", .object
          [⟨"it's", .object [⟨"type", .text "array"⟩,
              ⟨"prefixItems", .list [.object [⟨"const", .word "1.5e+3"⟩],
                .object [⟨"const", .text "\\"⟩]]⟩,
              ⟨"minItems", .word "2"⟩, ⟨"maxItems", .word "2"⟩]⟩,
            ⟨"next", .object [⟨"anyOf", .list [.object [⟨"type", .text "null"⟩],
              .object [⟨"type", .text "array"⟩, ⟨"items", .object [⟨"type", .text "object"⟩,
                ⟨"properties", .object []⟩]⟩]]⟩]⟩]⟩,
        ⟨"required", .list [.text "next"]⟩]) := by
  refine read?_writeType (.object ?_ ?_)
  · rw [List.forall_mem_cons, List.forall_mem_singleton]
    exact ⟨by decide, by decide⟩
  · rw [List.forall_mem_cons, List.forall_mem_singleton]
    have hnumber : Literal.Legible (.number "1.5e+3") := ⟨by decide, List.all_eq_true.1 rfl⟩
    have hstring : Literal.Legible (.string "\\") := show Text.OneLine "\\" from by decide
    refine ⟨.tuple ?_, .union ?_⟩
    · rw [List.forall_mem_cons, List.forall_mem_singleton]
      exact ⟨.literal hnumber, .literal hstring⟩
    · rw [List.forall_mem_cons, List.forall_mem_singleton]
      exact ⟨.keyword .null, .array (.object (by simp) (by simp))⟩

end JsonSchema

end InterfaceSchema
