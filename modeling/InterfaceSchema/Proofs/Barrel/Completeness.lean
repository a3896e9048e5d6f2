import InterfaceSchema.Proofs.Barrel.Types

/-!
# The exports of schema files

A scan of a schema file finds the declarations of its model and nothing else.
Each declaration starts with one or two heads that bear its name; what stands
between heads announces no export.
-/

namespace InterfaceSchema

/-- A model with names that exports can have and with types and quoted texts in
which nothing is taken for an export. -/
structure Model.Exportable (model : Model) : Prop where
  names : ∀ declaration ∈ model.declarations, Barrel.IsName declaration.name
  shapes : ∀ declaration ∈ model.declarations, declaration.shape.WellSpelled
  quoted : ∀ text ∈ model.quotedTexts, ¬"export".toList <:+: text

namespace Barrel

open Dialect Text

variable {name schema rest typeOf : Text} {dialect : Dialect} {model : Model} {times : Nat}

/-- A name consists of characters of names. -/
theorem IsName.isNamed (h : IsName name) : name.IsNamed := by
  refine ⟨h.1, fun c hc => ?_⟩
  have hletter := h.2 c hc
  rw [isNameChar, Bool.or_eq_true, beq_iff_eq] at hletter
  rcases hletter with hletter | rfl
  · exact Calls.startsName_of_isAlphanum hletter
  · rfl

/-- The head of a declaration in schema code. -/
def headOf (word name : Text) : Head := ⟨[' '], word, [' '], name, [' '], '='⟩

/-- The head of a declaration is one that a scan finds. -/
theorem proper_headOf {word : Text} (hword : word ∈ exportWords) (hname : IsName name) :
    (headOf word name).Proper where
  gap := ⟨List.cons_ne_nil _ _, List.forall_mem_singleton.2 rfl⟩
  word := hword
  before := ⟨List.cons_ne_nil _ _, List.forall_mem_singleton.2 rfl⟩
  name := hname
  behind := List.forall_mem_singleton.2 rfl
  sign := .inl rfl

/-- The text of the head of a declaration. -/
theorem text_headOf (word name : Text) :
    (headOf word name).text = "export " ++ (word ++ (" " ++ (name ++ " ="))) := by
  have hexport : "export ".toList = "export".toList ++ " ".toList := rfl
  rw [Head.text_eq, hexport, List.append_assoc]
  rfl

/-- What stands behind the head of a schema up to the next declaration is
skipped. -/
theorem allExports_schema (hschema : Quiet schema) (hrest : Hush rest) :
    allExports (" " ++ schema ++ "\n" ++ rest) = allExports rest := by
  have hblank : Opens Quiet " " := opens_of_isClear rfl
  have hfeed : Quiet ("\n" : Text) := quiet_of_lacks (lacks_of_isInside rfl)
  have hline := hblank (hschema.append hfeed (hush_of_head rfl rfl))
  rw [← List.append_assoc] at hline
  exact hline.allExports hrest

/-- No export can start between the two heads of a declaration. -/
theorem silent_type (htypeOf : isClear "export" (" " ++ typeOf ++ "<typeof ") = true)
    (hname : IsName name) : Silent ((" " ++ typeOf ++ "<typeof ") ++ ((name ++ ">") ++ "\n")) := by
  have hclosed : Quiet (name ++ ">") :=
    hname.quiet.append (quiet_of_lacks (lacks_of_isInside rfl)) (hush_of_head rfl rfl)
  have hend : (name ++ ">" : Text).getLast? = some '>' := List.getLast?_concat
  have hnamed : Silent (name ++ ">") := hclosed.silent hend rfl (by decide) (by decide)
  have hfeed : Silent ("\n" : Text) := silent_of_not_mem (by decide)
  exact (silent_of_clear (clear_of_isClear htypeOf)).append (hnamed.append hfeed)

/-- Declarations of a dialect start with an export and are found by their
names, each of them this many times. -/
structure Announces (dialect : Dialect) (times : Nat) : Prop where
  head : ∀ name schema, (dialect.declaration name schema).head? = some 'e'
  found : ∀ {name schema rest : Text}, IsName name → Quiet schema → Hush rest →
    allExports (dialect.declaration name schema ++ rest) =
      List.replicate times name ++ allExports rest

/-- The declaration of a type next to its schema is found twice. -/
theorem announces_typeAndConst (hdeclaration : dialect.declaration = typeAndConst typeOf)
    (htypeOf : isClear "export" (" " ++ typeOf ++ "<typeof ") = true) : Announces dialect 2 := by
  refine ⟨fun name schema => by rw [hdeclaration]; rfl, ?_⟩
  intro name schema rest hname hschema hrest
  have htype : (headOf "type" name).Proper := proper_headOf (by decide) hname
  have hconst : (headOf "const" name).Proper := proper_headOf (by decide) hname
  have htext : typeAndConst typeOf name schema ++ rest = (headOf "type" name).text ++
      (((" " ++ typeOf ++ "<typeof ") ++ ((name ++ ">") ++ "\n")) ++
        ((headOf "const" name).text ++ (" " ++ schema ++ "\n" ++ rest))) := by
    have htype : "export type ".toList = "export ".toList ++ ("type".toList ++ " ".toList) := rfl
    have hsign : " = ".toList = " =".toList ++ " ".toList := rfl
    have hconst : ">\nexport const ".toList =
        ">".toList ++ ("\n".toList ++ ("export ".toList ++ ("const".toList ++ " ".toList))) := rfl
    rw [text_headOf, text_headOf]
    unfold typeAndConst
    rw [htype, hsign, hconst]
    simp only [List.append_assoc]
  rw [hdeclaration, htext, allExports_head htype, (silent_type htypeOf hname).allExports,
    allExports_head hconst, allExports_schema hschema hrest]
  rfl

/-- The declaration of a plain object is found once. -/
theorem announces_jsonSchema : Announces jsonSchema 1 := by
  refine ⟨fun name schema => rfl, ?_⟩
  intro name schema rest hname hschema hrest
  have hconst : (headOf "const" name).Proper := proper_headOf (by decide) hname
  have htext : jsonSchema.declaration name schema ++ rest =
      (headOf "const" name).text ++ (" " ++ schema ++ "\n" ++ rest) := by
    have hconst : "export const ".toList = "export ".toList ++ ("const".toList ++ " ".toList) := rfl
    have hsign : " = ".toList = " =".toList ++ " ".toList := rfl
    change "export const " ++ name ++ " = " ++ schema ++ "\n" ++ rest = _
    rw [text_headOf, hconst, hsign]
    simp only [List.append_assoc]
  rw [htext, allExports_head hconst, allExports_schema hschema hrest]
  rfl

/-- The names of all declarations are found, in order. -/
theorem allExports_body (hannounces : Announces dialect times)
    (hupholds : Upholds (Lacks "export") (Bare Quiet) dialect) (hmodel : model.Exportable) :
    allExports (body dialect model) =
      model.declarations.flatMap fun declaration => List.replicate times declaration.name := by
  obtain ⟨declarations⟩ := model
  have hdeclaration {declaration : Declaration} (hmem : declaration ∈ declarations) {rest : Text}
      (hrest : Hush rest) : allExports (writeDeclaration dialect declaration ++ rest) =
        List.replicate times declaration.name ++ allExports rest := by
    have hquoted : ∀ text ∈ declaration.shape.quotedTexts, Lacks "export" text := fun text htext =>
      hmodel.quoted text (List.mem_flatMap.2 ⟨declaration, hmem, htext⟩)
    exact hannounces.found (hmodel.names declaration hmem)
      (hupholds.writeShape (hmodel.shapes declaration hmem) hquoted).1 hrest
  clear hmodel
  induction declarations with
  | nil => rfl
  | cons declaration rest ih =>
    have hthere := ih fun hmem => hdeclaration (List.mem_cons_of_mem _ hmem)
    rw [List.flatMap_cons, ← hthere]
    cases rest with
    | nil =>
      have hend : Hush [] := hush_of_head rfl rfl
      have hlast := hdeclaration List.mem_cons_self hend
      rw [List.append_nil] at hlast
      rw [body_singleton, hlast]
      rfl
    | cons next more =>
      have hhush : Hush ('\n' :: body dialect ⟨next :: more⟩) := by
        obtain ⟨others, hothers⟩ := prefix_body dialect next more
        obtain ⟨letters, hletters⟩ := List.head?_eq_some_iff.1
          (hannounces.head next.name (writeShape dialect next.shape))
        rw [← hothers, writeDeclaration, hletters]
        exact hush_of_head rfl rfl
      have hnone : exportAt? ('\n' :: body dialect ⟨next :: more⟩) = none := rfl
      rw [body_cons, hdeclaration List.mem_cons_self hhush, allExports_cons hnone]

/-- Names found several times in a row are exported once. -/
theorem eraseDups_flatMap_replicate (htimes : times ≠ 0) (names : List Text) :
    (names.flatMap fun name => List.replicate times name).eraseDups = names.eraseDups := by
  induction names using List.reverseRecOn with
  | nil => rfl
  | append_singleton names name ih =>
    have hmem : name ∈ names.flatMap (fun name => List.replicate times name) ↔ name ∈ names := by
      simp [htimes]
    obtain ⟨more, rfl⟩ := Nat.exists_eq_add_one_of_ne_zero htimes
    rw [List.flatMap_append, List.eraseDups_append, List.eraseDups_append, ih]
    by_cases h : name ∈ names
    · simp [List.removeAll, h]
    · rw [List.flatMap_singleton]
      have hkept : (List.replicate (more + 1) name).removeAll
          (names.flatMap fun name => List.replicate (more + 1) name) =
            List.replicate (more + 1) name :=
        List.filter_eq_self.2 fun other hother => by
          rw [List.eq_of_mem_replicate hother]
          simpa using mt hmem.1 h
      have hsingle : (List.replicate (more + 1) name).eraseDups = [name] := by
        rw [List.replicate_succ, List.eraseDups_cons, List.filter_replicate]
        simp
      rw [hkept, hsingle]
      simp [List.removeAll, h, List.eraseDups_cons]

/-- The dialects of all targets announce their declarations and nothing else
after the fixups. -/
theorem exists_fixed {target : Target} (hdialect : target.dialect? = some dialect) :
    ∃ fixed times, fixed? target = some fixed ∧ times ≠ 0 ∧ Announces fixed times ∧
      Upholds (Lacks "export") (Bare Quiet) fixed ∧
      ∀ imports, fixed.imports = some imports → isClear "export" (imports ++ "\n\n") = true := by
  cases target with
  | typebox | types => cases hdialect
  | zod =>
    exact ⟨zodFixed, 2, rfl, by decide, announces_typeAndConst rfl rfl, zodFixed_quiet,
      fun _ h => by cases h; rfl⟩
  | valibot =>
    exact ⟨valibot, 2, rfl, by decide, announces_typeAndConst rfl rfl, valibot_quiet,
      fun _ h => by cases h; rfl⟩
  | yup =>
    exact ⟨yupFixed, 2, rfl, by decide, announces_typeAndConst rfl rfl, yupFixed_quiet,
      fun _ h => by cases h; rfl⟩
  | effect =>
    exact ⟨effectFixed, 2, rfl, by decide, announces_typeAndConst rfl rfl, effectFixed_quiet,
      fun _ h => by cases h; rfl⟩
  | jsonschema =>
    exact ⟨jsonSchema, 1, rfl, by decide, announces_jsonSchema, jsonSchema_quiet,
      fun _ h => by cases h⟩

/-- Nothing at the top of a schema file is taken for an export. -/
theorem silent_header (target : Target) : Silent (target.header ++ "\n\n") := by
  refine silent_of_clear (clear_of_isClear ?_)
  cases target <;> rfl

/-- A schema file exports the declared names of its model, each of them once and
in order of first appearance, and nothing else. -/
theorem exports_schemaFile {target : Target} (hdialect : target.dialect? = some dialect)
    (hmodel : model.Exportable) :
    exports (Fixup.schemaFile target (dialect.emit model)) =
      (model.declarations.map Declaration.name).eraseDups := by
  obtain ⟨fixed, times, hfixed, htimes, hannounces, hupholds, himports⟩ := exists_fixed hdialect
  have hreadable : model.Readable := fun declaration hdeclaration =>
    ⟨(hmodel.names declaration hdeclaration).isNamed, hmodel.shapes declaration hdeclaration⟩
  have hfile : Fixup.schemaFile target (dialect.emit model) =
      (target.header ++ "\n\n") ++ fixed.emit model := by
    rw [Fixup.schemaFile, (apply_of_readable hdialect hfixed hreadable).1]
    rfl
  have hemit : allExports (fixed.emit model) = allExports (body fixed model) := by
    cases hnone : fixed.imports with
    | none => rw [emit, hnone]; rfl
    | some imports =>
      rw [emit_eq hnone]
      exact (silent_of_clear (clear_of_isClear (himports imports hnone))).allExports
  rw [exports_eq, hfile, (silent_header target).allExports, hemit,
    allExports_body hannounces hupholds hmodel, ← List.flatMap_map,
    eraseDups_flatMap_replicate htimes]

/-- Declarations named like the words of an export, one of them twice. -/
def keywordNames : Model :=
  ⟨[⟨"2nd", .type (.tuple [.reference "export", .keyword .null])⟩,
    ⟨"export", .object [.reference "type.export"]
      [⟨"type A = ", .literal (.string "const B = \x7b"), true, false⟩]⟩,
    ⟨"2nd", .type (.array (.literal (.number "1e+3")))⟩]⟩

/-- The names of the declarations are exported once, and nothing else is. -/
theorem exports_schemaFile_keywordNames :
    exports (Fixup.schemaFile .zod (zod.emit keywordNames)) = ["2nd".toList, "export".toList] ∧
    exports (Fixup.schemaFile .jsonschema (jsonSchema.emit keywordNames)) =
      ["2nd".toList, "export".toList] := by
  have hword : IsDotted "export" := ⟨["export"], by simp, by decide, rfl⟩
  have hdotted : IsDotted "type.export" := ⟨["type", "export"], by simp, by decide, rfl⟩
  have hkey : Unmarked "type A = " := unmarked_of_all rfl
  have hvalue : Unmarked "const B = \x7b" := unmarked_of_all rfl
  have htuple : SchemaType.WellSpelled (.tuple [.reference "export", .keyword .null]) :=
    .tuple (List.forall_mem_cons.2 ⟨.reference hword, List.forall_mem_singleton.2 (.keyword _)⟩)
  have hobject : SchemaType.WellSpelled
      (.object [⟨"type A = ", .literal (.string "const B = \x7b"), true, false⟩]) :=
    .object (List.forall_mem_singleton.2 hkey) (List.forall_mem_singleton.2 (.literal hvalue))
  have hnumber : SchemaType.WellSpelled (.array (.literal (.number "1e+3"))) :=
    .array (.literal ⟨by decide, List.all_eq_true.1 rfl⟩)
  have hmodel : keywordNames.Exportable :=
    { names := by
        have hname (name : Text) (hne : name ≠ []) (h : name.all isNameChar = true) : IsName name :=
          ⟨hne, List.all_eq_true.1 h⟩
        exact List.forall_mem_cons.2 ⟨hname _ (by decide) rfl, List.forall_mem_cons.2
          ⟨hname _ (by decide) rfl, List.forall_mem_singleton.2 (hname _ (by decide) rfl)⟩⟩
      shapes := List.forall_mem_cons.2 ⟨htuple, List.forall_mem_cons.2
        ⟨⟨List.forall_mem_singleton.2 (.reference hdotted), hobject⟩,
          List.forall_mem_singleton.2 hnumber⟩⟩
      quoted := by
        have htexts :
            keywordNames.quotedTexts.all (fun text => !isInside "export" text) = true := rfl
        intro text htext
        have hinside := List.all_eq_true.1 htexts text htext
        rw [Bool.not_eq_true'] at hinside
        exact lacks_of_isInside hinside }
  exact ⟨exports_schemaFile rfl hmodel, exports_schemaFile rfl hmodel⟩

end Barrel

end InterfaceSchema
