import InterfaceSchema.Generate
import InterfaceSchema.Proofs.Barrel.Exports
import InterfaceSchema.Proofs.Dialect.Spelling
import InterfaceSchema.Proofs.Fixup.Emission

/-!
# Types announce no export

What a dialect writes for a type can hold the word `export`: a type can refer
to a name in which it stands. But it stands before blanks and a kind of thing
nowhere, as long as no string and no name of a field holds it.
-/

namespace InterfaceSchema

namespace Barrel

open Dialect Layout Text

variable {fixed name text : Text}

/-- Whether a fixed text neither holds an announcement nor lets one go on in
it. -/
def isPause (fixed : Text) : Bool := isClear "export" fixed && isHush fixed

/-- A quiet text is quiet behind a fixed one without the word `export`. -/
theorem opens_of_isClear (h : isClear "export" fixed = true) : Opens Quiet fixed :=
  (silent_of_clear (clear_of_isClear h)).quiet_append

/-- Two quiet texts are quiet with a pause between them. -/
theorem joins_of_isPause (h : isPause fixed = true) : Joins Quiet fixed := by
  obtain ⟨hclear, hush⟩ := Bool.and_eq_true_iff.1 h
  intro first second hfirst hsecond
  exact hfirst.append (opens_of_isClear hclear hsecond) (hush_of_isHush hush second)

/-- Texts are quiet however they are laid out. -/
theorem layable_quiet : Layable Quiet where
  nil := quiet_of_lacks (by decide)
  shift := Quiet.shift
  line := opens_of_isClear rfl
  comma := joins_of_isPause rfl
  row := joins_of_isPause rfl
  colon := joins_of_isPause rfl

/-- Whether a fixed text is quiet and does not end with a line feed. -/
def isStill (fixed : Text) : Bool :=
  !isInside "export" fixed && fixed.getLast?.any (fun c => c != '\n')

/-- A fixed text for which this is decided is quiet. -/
theorem bare_of_isStill (h : isStill fixed = true) : Bare Quiet fixed := by
  rw [isStill, Bool.and_eq_true, Bool.not_eq_true'] at h
  exact ⟨quiet_of_lacks (lacks_of_isInside h.1), h.2⟩

/-- A dotted name is quiet. -/
theorem bare_dotted (h : name.IsDotted) : Bare Quiet name :=
  ⟨quiet_of_no_blank fun _ hc => Calls.isBlank_of_named (startsName_of_isDotted h hc),
    getLast?_dotted h⟩

/-- The key of a field is quiet if `export` does not stand in its name. -/
theorem quiet_propertyKey (h : Lacks "export" name) : Quiet (propertyKey name) :=
  quiet_of_lacks (lacks_propertyKey (by decide) (by decide) (by decide) h)

/-- A quoted text is quiet if `export` does not stand in it. -/
theorem quiet_quote (h : Lacks "export" text) : Quiet (quote text) :=
  quiet_of_lacks (lacks_quote (by decide) (by decide) (by decide) h)

/-- A literal is quiet if `export` does not stand in it. -/
theorem quiet_literalValue {literal : Literal} (h : literal.WellSpelled)
    (hquoted : ∀ text ∈ literal.quotedTexts, Lacks "export" text) :
    Quiet (literalValue literal) := by
  cases literal with
  | string value =>
    exact quiet_quote (hquoted value List.mem_cons_self)
  | number spelling =>
    exact quiet_of_no_blank fun c hc => (Calls.isPlain_of_isNumeral (h.2 c hc)).2
  | boolean value =>
    cases value
    · exact (bare_of_isStill rfl).1
    · exact (bare_of_isStill rfl).1

section Dialects

/-- Fixed texts around a quiet one. -/
theorem quiet_between {opening closing item : Text} (hopening : isClear "export" opening = true)
    (hitem : Quiet item) (hclosing : isPause closing = true)
    (hlast : closing.getLast?.any (fun c => c != '\n') = true) :
    Bare Quiet (opening ++ item ++ closing) :=
  layable_quiet.between (opens_of_isClear hopening) hitem (joins_of_isPause hclosing) hlast

/-- Fixed texts around and between two quiet ones. -/
theorem quiet_pair {opening middle closing first second : Text}
    (hopening : isClear "export" opening = true) (hfirst : Quiet first)
    (hmiddle : isPause middle = true) (hsecond : Quiet second) (hclosing : isPause closing = true)
    (hlast : closing.getLast?.any (fun c => c != '\n') = true) :
    Bare Quiet (opening ++ first ++ middle ++ second ++ closing) :=
  layable_quiet.pair (opens_of_isClear hopening) hfirst (joins_of_isPause hmiddle) hsecond
    (joins_of_isPause hclosing) hlast

/-- A block of quiet entries. -/
theorem quiet_block {opening closing : Text} {rows : List Text}
    (hopening : isClear "export" opening = true) (hrows : ∀ row ∈ rows, Bare Quiet row)
    (hclosing : isStill closing = true) (hend : isPause ("\n" ++ closing) = true) :
    Bare Quiet (block opening rows closing) :=
  layable_quiet.block (opens_of_isClear hopening) hrows (bare_of_isStill hclosing)
    (joins_of_isPause hend)

/-- The entries for fields are quiet if their values are. -/
theorem quiet_entries {expression : WrittenField → Text} {fields : List WrittenField}
    (hfields : ∀ field ∈ fields, field.Upheld (Lacks "export") (Bare Quiet))
    (hvalue : ∀ field : WrittenField, Bare Quiet field.value → Bare Quiet (expression field)) :
    ∀ entry ∈ entries expression fields, Bare Quiet entry :=
  layable_quiet.entries quiet_propertyKey hfields hvalue

/-- A row of quiet expressions is quiet. -/
theorem quiet_commas {items : List Text} (h : ∀ item ∈ items, Bare Quiet item) :
    Quiet (commas items) := layable_quiet.commas fun item hitem => (h item hitem).1

/-- Types in fixed `zod` code announce nothing. -/
theorem zodFixed_quiet : Upholds (Lacks "export") (Bare Quiet) zodFixed where
  keyword keyword := bare_of_isStill (by cases keyword <;> rfl)
  date := bare_of_isStill rfl
  literal _ h hquoted := quiet_between rfl (quiet_literalValue h hquoted) rfl rfl
  reference _ h := bare_dotted h
  array h := quiet_between rfl h.1 rfl rfl
  tuple h := quiet_between rfl (quiet_commas h) rfl rfl
  union h := quiet_between rfl (quiet_commas h) rfl rfl
  intersection hne h := forall_chain
    (fun hleft hright => quiet_pair rfl hleft.1 rfl hright.1 rfl rfl) hne h
  object h := by
    refine quiet_block rfl (quiet_entries h fun field hvalue => ?_) rfl rfl
    split
    · exact @quiet_between [] _ _ (by decide) hvalue.1 rfl rfl
    · exact hvalue
  record _ h := quiet_between rfl h.1 rfl rfl

/-- Types in `valibot` code announce nothing. -/
theorem valibot_quiet : Upholds (Lacks "export") (Bare Quiet) valibot where
  keyword keyword := bare_of_isStill (by cases keyword <;> rfl)
  date := bare_of_isStill rfl
  literal _ h hquoted := quiet_between rfl (quiet_literalValue h hquoted) rfl rfl
  reference _ h := bare_dotted h
  array h := quiet_between rfl h.1 rfl rfl
  tuple h := quiet_between rfl (quiet_commas h) rfl rfl
  union h := quiet_between rfl (quiet_commas h) rfl rfl
  intersection _ h := quiet_between rfl (quiet_commas h) rfl rfl
  object h := by
    refine quiet_block rfl (quiet_entries h fun field hvalue => ?_) rfl rfl
    split
    · exact quiet_between rfl hvalue.1 rfl rfl
    · exact hvalue
  record hkey hvalue := quiet_pair rfl hkey.1 rfl hvalue.1 rfl rfl

/-- Types in fixed `effect` code announce nothing. -/
theorem effectFixed_quiet : Upholds (Lacks "export") (Bare Quiet) effectFixed where
  keyword keyword := bare_of_isStill (by cases keyword <;> rfl)
  date := bare_of_isStill rfl
  literal _ h hquoted := quiet_between rfl (quiet_literalValue h hquoted) rfl rfl
  reference _ h := bare_dotted h
  array h := quiet_between rfl h.1 rfl rfl
  tuple h := quiet_between rfl (quiet_commas h) rfl rfl
  union h := quiet_between rfl (quiet_commas h) rfl rfl
  intersection hne h := forall_chain
    (fun hleft hright => quiet_pair rfl hleft.1 rfl hright.1 rfl rfl) hne h
  object h := by
    refine quiet_block rfl (quiet_entries h fun field hvalue => ?_) rfl rfl
    split
    · exact quiet_between rfl hvalue.1 rfl rfl
    · exact hvalue
  record hkey hvalue := quiet_pair rfl hkey.1 rfl hvalue.1 rfl rfl

/-- Types in fixed `yup` code announce nothing. -/
theorem yupFixed_quiet : Upholds (Lacks "export") (Bare Quiet) yupFixed where
  keyword keyword := bare_of_isStill (by cases keyword <;> rfl)
  date := bare_of_isStill rfl
  literal _ h hquoted := quiet_between rfl (quiet_literalValue h hquoted) rfl rfl
  reference _ h := bare_dotted h
  array h := quiet_between rfl h.1 rfl rfl
  tuple h := quiet_between rfl (quiet_commas h) rfl rfl
  union {parts} h := by
    change Bare Quiet (yup.union parts)
    rcases yup_union_cases parts with ⟨values, hvalues, hunion⟩ | hunion
    · rw [hunion]
      refine quiet_between rfl (layable_quiet.commas fun value hvalue => ?_) rfl rfl
      obtain ⟨part, hpart, hfound⟩ := exists_of_mem_mapM hvalues value hvalue
      exact (h part hpart).1.part (infix_of_yupSetValues? hfound)
    · rw [hunion]
      exact bare_of_isStill rfl
  intersection hne h := forall_chain
    (fun hleft hright => @quiet_pair [] _ _ _ _ (by decide) hleft.1 rfl hright.1 rfl rfl) hne h
  object {fields} h := by
    have hvalue (field : WrittenField) (hvalue : Bare Quiet field.value) :
        Bare Quiet (if field.optional then yupOptional field.value else field.value) := by
      split
      · exact @quiet_between [] _ _ (by decide)
          (hvalue.1.part (infix_of_getD_beforeEnd? field.value)) rfl rfl
      · exact hvalue
    have hentries := quiet_entries h hvalue
    have hblock := @quiet_block "y.object(\x7b" "\x7d)" _ rfl hentries rfl rfl
    exact @quiet_between [] _ _ (by decide) hblock.1 rfl rfl
  record _ _ := bare_of_isStill rfl

/-- A decimal number announces nothing. -/
theorem decimal_quiet (n : Nat) : Bare Quiet (decimal n) :=
  ⟨quiet_of_no_blank fun c hc => Calls.isBlank_of_named ((isNamed_decimal n).2 c hc),
    getLast?_named (isNamed_decimal n)⟩

/-- The name of a required field announces nothing, quoted as it is. -/
theorem quiet_jsonRequiredName {field : WrittenField}
    (h : field.Upheld (Lacks "export") (Bare Quiet)) : Quiet (jsonRequiredName field) := by
  obtain ⟨name, hname, hkey⟩ := h.key
  obtain ⟨key, value, optional, readonly⟩ := field
  obtain rfl : key = propertyKey name := hkey
  rw [jsonRequiredName_eq]
  exact quiet_quote hname

/-- Schemas as plain objects announce nothing. -/
theorem jsonSchema_quiet : Upholds (Lacks "export") (Bare Quiet) jsonSchema := by
  have hentry (name : Text) (hname : isClear "export" name = true) {item : Text}
      (hitem : Bare Quiet item) : Bare Quiet (name ++ item) :=
    ⟨opens_of_isClear hname hitem.1, any_getLast?_append _ hitem.2⟩
  have hobject {entries : List Text} (h : ∀ entry ∈ entries, Bare Quiet entry) :
      Bare Quiet (jsonObject entries) := quiet_block rfl h rfl rfl
  have hlist {items : List Text} (h : ∀ item ∈ items, Bare Quiet item) :
      Bare Quiet (jsonList items) := quiet_block rfl h rfl rfl
  have hkind (kind : Text) (h : isStill kind = true) {others : List Text}
      (hothers : ∀ entry ∈ others, Bare Quiet entry) : Bare Quiet (jsonObject (kind :: others)) :=
    hobject (List.forall_mem_cons.2 ⟨bare_of_isStill h, hothers⟩)
  refine
    { keyword := fun keyword => bare_of_isStill (by cases keyword <;> rfl)
      date := bare_of_isStill rfl
      literal := fun _ h hquoted => quiet_between rfl (quiet_literalValue h hquoted) rfl rfl
      reference := fun _ h => bare_dotted h
      array := fun h => hkind "type: 'array'" rfl
        (List.forall_mem_singleton.2 (hentry "items: " rfl h))
      tuple := fun {items} h => hkind "type: 'array'" rfl ?_
      union := fun h => hobject (List.forall_mem_singleton.2 (hentry "anyOf: " rfl (hlist h)))
      intersection := fun _ h =>
        hobject (List.forall_mem_singleton.2 (hentry "allOf: " rfl (hlist h)))
      object := fun {fields} h => hkind "type: 'object'" rfl ?_
      record := fun _ h => hkind "type: 'object'" rfl
        (List.forall_mem_singleton.2 (hentry "additionalProperties: " rfl h)) }
  · have hlength := decimal_quiet items.length
    exact List.forall_mem_cons.2 ⟨hentry "prefixItems: " rfl (hlist h), List.forall_mem_cons.2
      ⟨hentry "minItems: " rfl hlength, List.forall_mem_singleton.2
        (hentry "maxItems: " rfl hlength)⟩⟩
  · have hproperties := hobject (quiet_entries h fun _ hvalue => hvalue)
    refine List.forall_mem_append.2
      ⟨List.forall_mem_singleton.2 (hentry "properties: " rfl hproperties), ?_⟩
    split
    · simp
    · refine List.forall_mem_singleton.2 (quiet_between rfl (layable_quiet.commas ?_) rfl rfl)
      refine List.forall_mem_map.2 fun field hfield => quiet_jsonRequiredName ?_
      exact h field (List.mem_of_mem_filter hfield)

end Dialects

end Barrel

end InterfaceSchema
