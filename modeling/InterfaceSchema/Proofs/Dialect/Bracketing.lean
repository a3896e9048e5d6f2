import InterfaceSchema.Generate
import InterfaceSchema.Proofs.Dialect.Spelling
import InterfaceSchema.Proofs.Dialect.Unions
import InterfaceSchema.Proofs.Text.Brackets

/-!
# Brackets in written code

Every dialect puts brackets around expressions that close them again, whatever stands in
quotes. Yup also takes code apart: it cuts a call off the end of an expression and values
out of a set. What is cut off closes what it opens, and what it leaves does so as well.
-/

namespace InterfaceSchema

open Brackets

/-- A literal without brackets and quotes, unless it is a string. -/
def Literal.Unbracketed : Literal → Prop
  | .string _ | .boolean _ => True
  | .number spelling => ∀ c ∈ spelling, isNeutral c = true

/-- A type whose names are made up of identifiers, with numbers that have no brackets and
no quotes. -/
abbrev SchemaType.Unbracketed (type : SchemaType) : Prop :=
  type.Spelled Text.IsDotted Literal.Unbracketed fun _ => True

/-- What a name stands for, with names and numbers of that kind. -/
abbrev Shape.Unbracketed (shape : Shape) : Prop :=
  shape.Spelled Text.IsDotted Literal.Unbracketed fun _ => True

/-- A model with names and numbers of that kind. -/
def Model.Unbracketed (model : Model) : Prop :=
  ∀ declaration ∈ model.declarations, declaration.name.IsDotted ∧ declaration.shape.Unbracketed

namespace Dialect

/-- The text is balanced and ends with no line feed. It may be empty. -/
def Whole (text : Text) : Prop := Balanced text ∧ text.getLast? ≠ some '\n'

section Parts

variable {opening middle closing item second : Text} {rows : List Text}

/-- What has an end is whole. -/
theorem whole_of_bare (h : Bare Balanced item) : Whole item := ⟨h.1, h.line.2⟩

/-- A literal is balanced. -/
theorem balanced_literalValue {value : Literal} (h : value.Unbracketed) :
    Balanced (literalValue value) := by
  cases value with
  | string text => exact balanced_quote text
  | number spelling => exact balanced_of_neutral h
  | boolean truth => cases truth <;> exact fun _ => rfl

/-- A balanced text between brackets. -/
theorem bare_between (closers : Text) (hopening : Turns [] closers opening) (hitem : Balanced item)
    (hclosing : Turns closers [] closing)
    (hlast : closing.getLast?.any (fun c => c != '\n') = true) :
    Bare Balanced (opening ++ item ++ closing) :=
  ⟨hitem.between hopening hclosing, any_getLast?_append _ hlast⟩

/-- A balanced text with another one behind it. -/
theorem bare_behind (hitem : Balanced item) (hclosing : Balanced closing)
    (hlast : closing.getLast?.any (fun c => c != '\n') = true) : Bare Balanced (item ++ closing) :=
  ⟨hitem.append hclosing, any_getLast?_append _ hlast⟩

/-- Two balanced texts between brackets. -/
theorem bare_pair (closers : Text) (hopening : Turns [] closers opening) (hitem : Balanced item)
    (hmiddle : Balanced middle) (hsecond : Balanced second) (hclosing : Turns closers [] closing)
    (hlast : closing.getLast?.any (fun c => c != '\n') = true) :
    Bare Balanced (opening ++ item ++ middle ++ second ++ closing) := by
  have hinner : Balanced (item ++ middle ++ second) := (hitem.append hmiddle).append hsecond
  have hbare := bare_between closers hopening hinner hclosing hlast
  simpa only [List.append_assoc] using hbare

/-- A row of whole texts is balanced. -/
theorem balanced_commas {items : List Text} (h : ∀ item ∈ items, Whole item) :
    Balanced (commas items) := (layable_turns []).commas fun item hitem => (h item hitem).1

/-- The lines of a block lead from inside its brackets to behind them. -/
theorem turns_blockLines {closers : Text} (hrows : ∀ row ∈ rows, Balanced row)
    (hclosing : Turns closers [] closing) : Turns closers [] (Layout.blockLines closing rows) := by
  have hlay := layable_turns closers
  have hline : Balanced "\n" := fun _ => rfl
  have hcomma : Balanced "," := fun _ => rfl
  fun_induction Layout.blockLines closing rows with
  | case1 => exact hclosing
  | case2 row =>
    have hrow := hlay.shift ((hrows row List.mem_cons_self).inside closers)
    exact (hlay.line hrow).append ((hline.inside closers).append hclosing)
  | case3 row rest _ ih =>
    obtain ⟨hrow, hmore⟩ := List.forall_mem_cons.1 hrows
    have hshifted := hlay.shift (hrow.inside closers)
    exact (hlay.line hshifted).append ((hcomma.inside closers).append (ih hmore))

/-- A block between brackets. -/
theorem bare_block (closers : Text) (hopening : Turns [] closers opening)
    (hrows : ∀ row ∈ rows, Bare Balanced row) (hclosing : Turns closers [] closing)
    (hlast : closing.getLast?.any (fun c => c != '\n') = true) :
    Bare Balanced (Layout.block opening rows closing) := by
  have hend : Bare (fun _ => True) closing := ⟨trivial, hlast⟩
  have hlines := turns_blockLines (fun row hrow => (hrows row hrow).1) hclosing
  rw [Layout.block_eq opening (fun row hrow => (hrows row hrow).line) hend.line.1 hend.line.2]
  exact ⟨hopening.append hlines, any_getLast?_append _ (any_getLast?_blockLines rows hlast)⟩

/-- The entries for fields with whole values. -/
theorem bare_entries {expression : WrittenField → Text} {fields : List WrittenField}
    (hfields : ∀ field ∈ fields, field.Upheld (fun _ => True) Whole)
    (hvalue : ∀ field : WrittenField, Whole field.value → Whole (expression field)) :
    ∀ entry ∈ entries expression fields, Bare Balanced entry := by
  refine List.forall_mem_map.2 fun field hfield => ?_
  obtain ⟨⟨name, -, hkey⟩, hwhole⟩ := hfields field hfield
  obtain ⟨hbalanced, hlast⟩ := hvalue field hwhole
  rw [hkey]
  refine ⟨(layable_turns []).colon (balanced_propertyKey name) hbalanced, ?_⟩
  -- a blank ends the entry if nothing is written for the value
  rw [List.getLast?_append, List.getLast?_append]
  cases hend : (expression field).getLast? with
  | none => rfl
  | some last =>
    rw [hend] at hlast
    simpa using fun heq => hlast (congrArg some heq)

/-- A chain of whole texts is whole, also one of no texts. -/
theorem whole_chain {join : Text → Text → Text}
    (hjoin : ∀ {left right}, Whole left → Whole right → Whole (join left right))
    {parts : List Text} (hparts : ∀ part ∈ parts, Whole part) : Whole (chain join parts) := by
  by_cases hne : parts = []
  · subst hne
    exact ⟨(layable_turns []).nil, by simp [chain]⟩
  · exact forall_chain hjoin hne hparts

end Parts

section Dialects

/-- What is written in Zod code. -/
theorem zod_balanced : Keeps Text.IsDotted Literal.Unbracketed (fun _ => True) Whole zod where
  keyword keyword := whole_of_bare (by cases keyword <;> exact ⟨fun _ => rfl, rfl⟩)
  date := whole_of_bare ⟨fun _ => rfl, rfl⟩
  literal _ h := whole_of_bare <|
    bare_between ")" (fun _ => rfl) (balanced_literalValue h) (fun _ => rfl) rfl
  reference _ h := whole_of_bare ⟨balanced_dotted h, getLast?_dotted h⟩
  array h := whole_of_bare (bare_between ")" (fun _ => rfl) h.1 (fun _ => rfl) rfl)
  tuple h := whole_of_bare <|
    bare_between "])" (fun _ => rfl) (balanced_commas h) (fun _ => rfl) rfl
  union h := whole_of_bare <|
    bare_between "])" (fun _ => rfl) (balanced_commas h) (fun _ => rfl) rfl
  intersection := whole_chain fun hleft hright => whole_of_bare <|
    bare_pair ")" (fun _ => rfl) hleft.1 (fun _ => rfl) hright.1 (fun _ => rfl) rfl
  object h := by
    have hentries := bare_entries h fun field hvalue =>
      (show Whole (if field.optional then field.value ++ ".optional()" else field.value) from by
        split
        · exact whole_of_bare (bare_behind hvalue.1 (fun _ => rfl) rfl)
        · exact hvalue)
    exact whole_of_bare (bare_block "\x7d)" (fun _ => rfl) hentries (fun _ => rfl) rfl)
  record _ h := whole_of_bare (bare_between ")" (fun _ => rfl) h.1 (fun _ => rfl) rfl)

/-- What is written in Valibot code. -/
theorem valibot_balanced :
    Keeps Text.IsDotted Literal.Unbracketed (fun _ => True) Whole valibot where
  keyword keyword := whole_of_bare (by cases keyword <;> exact ⟨fun _ => rfl, rfl⟩)
  date := whole_of_bare ⟨fun _ => rfl, rfl⟩
  literal _ h := whole_of_bare <|
    bare_between ")" (fun _ => rfl) (balanced_literalValue h) (fun _ => rfl) rfl
  reference _ h := whole_of_bare ⟨balanced_dotted h, getLast?_dotted h⟩
  array h := whole_of_bare (bare_between ")" (fun _ => rfl) h.1 (fun _ => rfl) rfl)
  tuple h := whole_of_bare <|
    bare_between "])" (fun _ => rfl) (balanced_commas h) (fun _ => rfl) rfl
  union h := whole_of_bare <|
    bare_between "])" (fun _ => rfl) (balanced_commas h) (fun _ => rfl) rfl
  intersection h := whole_of_bare <|
    bare_between "])" (fun _ => rfl) (balanced_commas h) (fun _ => rfl) rfl
  object h := by
    have hentries := bare_entries h fun field hvalue =>
      (show Whole (if field.optional then "v.optional(" ++ field.value ++ ")" else field.value) from by
        split
        · exact whole_of_bare (bare_between ")" (fun _ => rfl) hvalue.1 (fun _ => rfl) rfl)
        · exact hvalue)
    exact whole_of_bare (bare_block "\x7d)" (fun _ => rfl) hentries (fun _ => rfl) rfl)
  record hkey hvalue := whole_of_bare <|
    bare_pair ")" (fun _ => rfl) hkey.1 (fun _ => rfl) hvalue.1 (fun _ => rfl) rfl

/-- What is written in Effect code. -/
theorem effect_balanced :
    Keeps Text.IsDotted Literal.Unbracketed (fun _ => True) Whole effect where
  keyword keyword := whole_of_bare (by cases keyword <;> exact ⟨fun _ => rfl, rfl⟩)
  date := whole_of_bare ⟨fun _ => rfl, rfl⟩
  literal _ h := whole_of_bare <|
    bare_between ")" (fun _ => rfl) (balanced_literalValue h) (fun _ => rfl) rfl
  reference _ h := whole_of_bare ⟨balanced_dotted h, getLast?_dotted h⟩
  array h := whole_of_bare (bare_between ")" (fun _ => rfl) h.1 (fun _ => rfl) rfl)
  tuple h := whole_of_bare <|
    bare_between ")" (fun _ => rfl) (balanced_commas h) (fun _ => rfl) rfl
  union h := whole_of_bare <|
    bare_between ")" (fun _ => rfl) (balanced_commas h) (fun _ => rfl) rfl
  intersection := whole_chain fun hleft hright => whole_of_bare <|
    bare_pair ")" (fun _ => rfl) hleft.1 (fun _ => rfl) hright.1 (fun _ => rfl) rfl
  object h := by
    have hentries := bare_entries h fun field hvalue =>
      (show Whole (if field.optional then "ES.optional(" ++ field.value ++ ")" else field.value) from by
        split
        · exact whole_of_bare (bare_between ")" (fun _ => rfl) hvalue.1 (fun _ => rfl) rfl)
        · exact hvalue)
    exact whole_of_bare (bare_block "\x7d)" (fun _ => rfl) hentries (fun _ => rfl) rfl)
  record {type written value} hwritten hvalue := by
    have halone : Whole ("ES.Record(" ++ value ++ ")") :=
      whole_of_bare (bare_between ")" (fun _ => rfl) hvalue.1 (fun _ => rfl) rfl)
    have hboth : Whole ("ES.Record(" ++ written ++ ", " ++ value ++ ")") := whole_of_bare <|
      bare_pair ")" (fun _ => rfl) hwritten.1 (fun _ => rfl) hvalue.1 (fun _ => rfl) rfl
    unfold effect
    dsimp only
    split
    · exact halone
    · exact hboth

/-- The values of a set close what they open inside the set. -/
theorem turns_yupSetValues? {schema values : Text} (h : Balanced schema)
    (hvalues : yupSetValues? schema = some values) : Turns "])" "])" values := by
  obtain ⟨middle, hmiddle, hfound⟩ := Option.bind_eq_some_iff.1 hvalues
  have hstart : Turns [] "])" yupSetStart := fun _ => rfl
  have hend : Turns "])" [] yupSetEnd := fun _ => rfl
  rw [Text.eq_of_afterStart? hmiddle, Text.eq_of_beforeEnd? hfound] at h
  exact (h.behind hstart).front hend (by decide)

/-- What is left of a schema without the mark of a required one. -/
theorem balanced_getD_beforeEnd? {schema : Text} (h : Balanced schema) :
    Balanced ((Text.beforeEnd? yupRequired schema).getD schema) := by
  cases hbefore : Text.beforeEnd? yupRequired schema with
  | none => exact h
  | some base =>
    have hend : Balanced yupRequired := fun _ => rfl
    rw [Text.eq_of_beforeEnd? hbefore] at h
    exact Turns.front h hend (by decide)

/-- What is written in Yup code. -/
theorem yup_balanced : Keeps Text.IsDotted Literal.Unbracketed (fun _ => True) Whole yup where
  keyword keyword := whole_of_bare (by cases keyword <;> exact ⟨fun _ => rfl, rfl⟩)
  date := whole_of_bare ⟨fun _ => rfl, rfl⟩
  literal _ h := whole_of_bare <|
    bare_between "])" (fun _ => rfl) (balanced_literalValue h) (fun _ => rfl) rfl
  reference _ h := whole_of_bare ⟨balanced_dotted h, getLast?_dotted h⟩
  array h := whole_of_bare (bare_between ")" (fun _ => rfl) h.1 (fun _ => rfl) rfl)
  tuple h := whole_of_bare <|
    bare_between "])" (fun _ => rfl) (balanced_commas h) (fun _ => rfl) rfl
  union {parts} h := by
    rcases yup_union_cases parts with ⟨values, hvalues, hunion⟩ | hunion
    · have hset : Turns "])" "])" (commas values) := (layable_turns "])").commas fun value hvalue => by
        obtain ⟨part, hpart, hfound⟩ := exists_of_mem_mapM hvalues value hvalue
        exact turns_yupSetValues? (h part hpart).1 hfound
      have hstart : Turns [] "])" yupSetStart := fun _ => rfl
      have hend : Turns "])" [] yupSetEnd := fun _ => rfl
      rw [hunion]
      exact whole_of_bare ⟨(hstart.append hset).append hend, any_getLast?_append _ rfl⟩
    · rw [hunion]
      exact whole_of_bare ⟨fun _ => rfl, rfl⟩
  intersection := whole_chain fun hleft hright =>
    whole_of_bare (bare_between ")" (hleft.1.append fun _ => rfl) hright.1 (fun _ => rfl) rfl)
  object h := by
    have hentries := bare_entries h fun field hvalue =>
      (show Whole (if field.optional then yupOptional field.value else field.value) from by
        split
        · exact whole_of_bare <|
            bare_behind (balanced_getD_beforeEnd? hvalue.1) (fun _ => rfl) rfl
        · exact hvalue)
    have hopening : Turns [] "\x7d)" "y.object(\x7b" := fun _ => rfl
    have hclosing : Turns "\x7d)" [] "\x7d)" := fun _ => rfl
    have hblock := bare_block "\x7d)" hopening hentries hclosing rfl
    exact whole_of_bare (bare_behind hblock.1 (fun _ => rfl) rfl)
  record _ _ := whole_of_bare ⟨fun _ => rfl, rfl⟩

/-- A decimal number is balanced and ends with a digit. -/
theorem bare_decimal (n : Nat) : Bare Balanced (decimal n) :=
  ⟨balanced_of_neutral fun c hc => isNeutral_of_named ((isNamed_decimal n).2 c hc),
    getLast?_named (isNamed_decimal n)⟩

/-- The name of a required field is balanced. -/
theorem balanced_jsonRequiredName {field : WrittenField}
    (h : field.Upheld (fun _ => True) (Bare Balanced)) : Balanced (jsonRequiredName field) := by
  obtain ⟨name, -, hkey⟩ := h.key
  obtain ⟨key, value, optional, readonly⟩ := field
  obtain rfl : key = Text.propertyKey name := hkey
  rw [jsonRequiredName_eq]
  exact balanced_quote name

/-- What is written as JSON Schema. It is never empty. -/
theorem jsonSchema_balanced :
    Keeps Text.IsDotted Literal.Unbracketed (fun _ => True) (Bare Balanced) jsonSchema := by
  have hentry (fixed : Text) (hfixed : Balanced fixed) {item : Text} (h : Bare Balanced item) :
      Bare Balanced (fixed ++ item) := ⟨hfixed.append h.1, any_getLast?_append _ h.2⟩
  have hobject {rows : List Text} (h : ∀ row ∈ rows, Bare Balanced row) :
      Bare Balanced (jsonObject rows) := bare_block "\x7d" (fun _ => rfl) h (fun _ => rfl) rfl
  have hlist {rows : List Text} (h : ∀ row ∈ rows, Bare Balanced row) :
      Bare Balanced (jsonList rows) := bare_block "]" (fun _ => rfl) h (fun _ => rfl) rfl
  have hkind (kind : Text) (hbare : Bare Balanced kind) {rows : List Text}
      (h : ∀ row ∈ rows, Bare Balanced row) : Bare Balanced (jsonObject (kind :: rows)) :=
    hobject (List.forall_mem_cons.2 ⟨hbare, h⟩)
  exact {
    keyword := fun keyword => by cases keyword <;> exact ⟨fun _ => rfl, rfl⟩
    date := ⟨fun _ => rfl, rfl⟩
    literal := fun _ h =>
      bare_between "\x7d" (fun _ => rfl) (balanced_literalValue h) (fun _ => rfl) rfl
    reference := fun _ h => ⟨balanced_dotted h, getLast?_dotted h⟩
    array := fun h => hkind "type: 'array'" ⟨fun _ => rfl, rfl⟩
      (List.forall_mem_singleton.2 (hentry "items: " (fun _ => rfl) h))
    tuple := fun {items} h => hkind "type: 'array'" ⟨fun _ => rfl, rfl⟩ <|
      List.forall_mem_cons.2 ⟨hentry "prefixItems: " (fun _ => rfl) (hlist h),
        List.forall_mem_cons.2 ⟨hentry "minItems: " (fun _ => rfl) (bare_decimal items.length),
          List.forall_mem_singleton.2
            (hentry "maxItems: " (fun _ => rfl) (bare_decimal items.length))⟩⟩
    union := fun h => hobject (List.forall_mem_singleton.2
      (hentry "anyOf: " (fun _ => rfl) (hlist h)))
    intersection := fun h => hobject (List.forall_mem_singleton.2
      (hentry "allOf: " (fun _ => rfl) (hlist h)))
    object := fun {fields} h => by
      have hfields : ∀ field ∈ fields, field.Upheld (fun _ => True) Whole := fun field hfield =>
        ⟨(h field hfield).key, whole_of_bare (h field hfield).value⟩
      have hproperties := bare_entries hfields fun field hvalue =>
        (show Whole (WrittenField.value field) from hvalue)
      refine hkind "type: 'object'" ⟨fun _ => rfl, rfl⟩ (List.forall_mem_cons.2
        ⟨hentry "properties: " (fun _ => rfl) (hobject hproperties), ?_⟩)
      split
      · simp
      · refine List.forall_mem_singleton.2 (bare_between "]" (fun _ => rfl)
          ((layable_turns []).commas (List.forall_mem_map.2 fun field hfield => ?_))
          (fun _ => rfl) rfl)
        exact balanced_jsonRequiredName (h field (List.mem_of_mem_filter hfield))
    record := fun _ h => hkind "type: 'object'" ⟨fun _ => rfl, rfl⟩
      (List.forall_mem_singleton.2 (hentry "additionalProperties: " (fun _ => rfl) h)) }

end Dialects

section Files

variable {dialect : Dialect} {model : Model} {target : Target} {name schema : Text}

/-- What a dialect puts into a file is balanced. -/
structure Encloses (dialect : Dialect) : Prop where
  type : ∀ {type : SchemaType}, type.Unbracketed → Balanced (dialect.writeType type)
  shape : ∀ {shape : Shape}, shape.Unbracketed → Balanced (dialect.writeShape shape)
  imports : ∀ imports, dialect.imports = some imports → Balanced imports
  declaration : ∀ {name schema}, Balanced name → Balanced schema →
    Balanced (dialect.declaration name schema)

/-- A dialect with expressions that are balanced, an import and two declarations for each
name. -/
theorem encloses_typeAndConst {typeOf imports : Text}
    (h : Keeps Text.IsDotted Literal.Unbracketed (fun _ => True) Whole dialect)
    (himports : dialect.imports = some imports) (hbalanced : Balanced imports)
    (hdeclaration : dialect.declaration = typeAndConst typeOf) (htypeOf : Balanced typeOf) :
    Encloses dialect where
  type htype := (h.writeType htype).1
  shape hshape := (h.writeShape hshape).1
  imports found hfound := by
    obtain rfl := Option.some.inj (himports.symm.trans hfound)
    exact hbalanced
  declaration {name schema} hname hschema := by
    have hexport : Balanced "export type " := fun _ => rfl
    have hequals : Balanced " = " := fun _ => rfl
    have htypeof : Balanced "<typeof " := fun _ => rfl
    have hconst : Balanced ">\nexport const " := fun _ => rfl
    have hend : Balanced "\n" := fun _ => rfl
    have htype := ((((hexport.append hname).append hequals).append htypeOf).append htypeof).append hname
    rw [hdeclaration]
    unfold typeAndConst
    exact (((((htype.append hconst).append hname).append hequals).append hschema).append hend)

/-- Every dialect for models puts balanced text into a file. -/
theorem encloses_of_dialect? (h : target.dialect? = some dialect) : Encloses dialect := by
  cases target with
  | zod =>
    obtain rfl := Option.some.inj h
    exact encloses_typeAndConst zod_balanced rfl (fun _ => rfl) rfl (fun _ => rfl)
  | valibot =>
    obtain rfl := Option.some.inj h
    exact encloses_typeAndConst valibot_balanced rfl (fun _ => rfl) rfl (fun _ => rfl)
  | yup =>
    obtain rfl := Option.some.inj h
    exact encloses_typeAndConst yup_balanced rfl (fun _ => rfl) rfl (fun _ => rfl)
  | effect =>
    obtain rfl := Option.some.inj h
    exact encloses_typeAndConst effect_balanced rfl (fun _ => rfl) rfl (fun _ => rfl)
  | jsonschema =>
    have hexport : Balanced "export const " := fun _ => rfl
    have hequals : Balanced " = " := fun _ => rfl
    have hend : Balanced "\n" := fun _ => rfl
    obtain rfl := Option.some.inj h
    exact {
      type := fun htype => (jsonSchema_balanced.writeType htype).1
      shape := fun hshape => (jsonSchema_balanced.writeShape hshape).1
      imports := fun _ himports => nomatch himports
      declaration := fun hname hschema =>
        (((hexport.append hname).append hequals).append hschema).append hend }
  | typebox => cases h
  | types => cases h

/-- A declaration is balanced. -/
theorem Encloses.writeDeclaration (h : Encloses dialect) {declaration : Declaration}
    (hname : declaration.name.IsDotted) (hshape : declaration.shape.Unbracketed) :
    Balanced (dialect.writeDeclaration declaration) :=
  h.declaration (balanced_dotted hname) (h.shape hshape)

/-- Texts with balanced texts between them. -/
theorem balanced_joinWith {separator : Text} {texts : List Text} (hseparator : Balanced separator)
    (h : ∀ text ∈ texts, Balanced text) : Balanced (Text.joinWith separator texts) := by
  induction texts with
  | nil => exact (layable_turns []).nil
  | cons text rest ih =>
    obtain ⟨htext, hrest⟩ := List.forall_mem_cons.1 h
    cases rest with
    | nil => simpa using htext
    | cons second more =>
      rw [Text.joinWith_cons_cons]
      exact htext.append (hseparator.append (ih hrest))

/-- Every file, every declaration and every expression that a dialect writes is well
bracketed, whatever stands in strings and names of fields. -/
theorem emit_wellBracketed (hdialect : target.dialect? = some dialect)
    (hmodel : model.Unbracketed) :
    (dialect.emit model).WellBracketed ∧
    (∀ declaration ∈ model.declarations,
      (dialect.writeDeclaration declaration).WellBracketed) ∧
    ∀ type : SchemaType, type.Unbracketed → (dialect.writeType type).WellBracketed := by
  have hencloses := encloses_of_dialect? hdialect
  have hdeclarations : ∀ declaration ∈ model.declarations,
      Balanced (dialect.writeDeclaration declaration) := fun declaration hdeclaration =>
    hencloses.writeDeclaration (hmodel declaration hdeclaration).1
      (hmodel declaration hdeclaration).2
  refine ⟨Balanced.wellBracketed ?_, fun declaration hdeclaration =>
    (hdeclarations declaration hdeclaration).wellBracketed,
    fun type htype => (hencloses.type htype).wellBracketed⟩
  have hbody := balanced_joinWith (fun _ => rfl : Balanced "\n") (List.forall_mem_map.2 hdeclarations)
  rw [emit]
  cases himports : dialect.imports with
  | none => exact hbody
  | some imports => exact Turns.append ((hencloses.imports imports himports).append fun _ => rfl) hbody

/-- Brackets, quotes and line ends in strings, and an empty intersection. -/
theorem emit_wellBracketed_quoted :
    let body : SchemaType := .object
      [⟨"it's (", .union [.literal (.string "]\n'"), .literal (.number "1")], true, false⟩,
        ⟨"next", .array (.intersection []), false, false⟩]
    (yup.emit ⟨[⟨"Page.Body", .object [.reference "Base"] []⟩, ⟨"Page", .type body⟩]⟩).WellBracketed ∧
      (yup.writeType body).WellBracketed := by
  intro body
  have hbody : body.Unbracketed := by
    refine .object (by simp) ?_
    simp only [List.forall_mem_cons, List.not_mem_nil, false_imp_iff, implies_true, and_true]
    have hnumber : Literal.Unbracketed (.number "1") := List.all_eq_true.1 rfl
    refine ⟨.union ?_, .array (.intersection (by simp))⟩
    simp only [List.forall_mem_cons, List.not_mem_nil, false_imp_iff, implies_true, and_true]
    exact ⟨.literal trivial, .literal hnumber⟩
  have hpage : Text.IsDotted "Page" := Text.isDotted_of_isIdentifier rfl
  have hbase : Text.IsDotted "Base" := Text.isDotted_of_isIdentifier rfl
  have hinner : Text.IsDotted "Page.Body" :=
    ⟨["Page", "Body"], by simp, List.all_eq_true.1 rfl, rfl⟩
  have hmodel : Model.Unbracketed
      ⟨[⟨"Page.Body", .object [.reference "Base"] []⟩, ⟨"Page", .type body⟩]⟩ := by
    rw [Model.Unbracketed, List.forall_mem_cons, List.forall_mem_singleton]
    exact ⟨⟨hinner, List.forall_mem_singleton.2 (.reference hbase), .object (by simp) (by simp)⟩,
      hpage, hbody⟩
  have hwritten := emit_wellBracketed (show Target.dialect? .yup = some yup from rfl) hmodel
  exact ⟨hwritten.1, hwritten.2.2 body hbody⟩

end Files

end Dialect

end InterfaceSchema
