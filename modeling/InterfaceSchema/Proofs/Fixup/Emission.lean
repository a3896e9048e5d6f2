import InterfaceSchema.Generate
import InterfaceSchema.Proofs.Fixup.Marks

/-!
# Files after the fixups

The fixups of a target turn the code its dialect writes for a model into the
code of another dialect, which writes the fixed form directly, and leave the
code of that dialect alone. Calls are replaced declaration by declaration. What
marks an import stands at the top of a file only.
-/

namespace InterfaceSchema

namespace Dialect

open Calls Layout Text

/-- Schemas for the `yup` library, imported as a namespace. -/
def yupFixed : Dialect := { yup with imports := some ("import * as y from 'yup'" : Text) }

/-- The declarations of a model in written form. -/
def body (dialect : Dialect) (model : Model) : Text :=
  joinWith "\n" (model.declarations.map (writeDeclaration dialect))

section Declarations

variable {callee : Text} {change : List Text → Option Text} {before : Option Char}
  {typeOf name schema schema' mark imports : Text} {R : Text → Text → Prop} {first second : Dialect}
  {model : Model}

/-- A file is its imports, an empty line and its declarations. -/
theorem emit_eq {dialect : Dialect} (h : dialect.imports = some imports) :
    dialect.emit model = imports ++ "\n\n" ++ body dialect model := by
  rw [emit, h]
  rfl

/-- Declarations stand on lines of their own, with an empty line between them. -/
theorem body_cons (dialect : Dialect) (declaration : Declaration) (next : Declaration)
    (rest : List Declaration) : body dialect ⟨declaration :: next :: rest⟩ =
      writeDeclaration dialect declaration ++ ('\n' :: body dialect ⟨next :: rest⟩) :=
  joinWith_cons_cons "\n" _ _ _

/-- A single declaration is all that is written. -/
theorem body_singleton (dialect : Dialect) (declaration : Declaration) :
    body dialect ⟨[declaration]⟩ = writeDeclaration dialect declaration :=
  joinWith_singleton "\n" _

/-- The first declaration is written first. -/
theorem prefix_body (dialect : Dialect) (declaration : Declaration) (rest : List Declaration) :
    writeDeclaration dialect declaration <+: body dialect ⟨declaration :: rest⟩ := by
  cases rest with
  | nil => rw [body_singleton]
  | cons next more =>
    rw [body_cons]
    exact List.prefix_append _ _

/-- A declaration up to its schema. -/
def lead (typeOf name : Text) : Text :=
  "export type " ++ (name ++ (" = " ++ typeOf ++ "<typeof ")) ++ (name ++ ">\nexport const ") ++
    (name ++ " = ")

/-- The schema of a declaration stands last on its line. -/
theorem typeAndConst_eq (typeOf name schema : Text) :
    typeAndConst typeOf name schema = lead typeOf name ++ (schema ++ "\n") := by
  unfold typeAndConst lead
  simp only [List.append_assoc]

/-- A blank stands before the schema of a declaration. -/
theorem getLast?_lead (typeOf name : Text) : (lead typeOf name).getLast? = some ' ' := by
  unfold lead
  rw [List.getLast?_append, List.getLast?_append]
  rfl

/-- What dialects can write between the names of a declaration. -/
structure Declares (callee typeOf : Text) : Prop where
  joint : Joint callee (" = " ++ typeOf ++ "<typeof ")
  plain : (" = " ++ typeOf ++ "<typeof " : Text).all isPlain = true

/-- A declaration up to its schema stays as it is. -/
theorem woven_lead (hcallee : Callable callee) (hmark : callee ∈ marks)
    (hdeclares : Declares callee typeOf) (hname : name.IsNamed) :
    Woven callee change 0 (lead typeOf name) (lead typeOf name) := by
  have hmarks : marks.all (fun mark => isBare mark "export type " &&
      isJoint mark ">\nexport const " && isJoint mark " = ") = true := rfl
  have hfixed := List.all_eq_true.1 hmarks callee hmark
  rw [Bool.and_eq_true, Bool.and_eq_true] at hfixed
  obtain ⟨⟨hexport, hconst⟩, hequals⟩ := hfixed
  have hexport' : Seam callee ("export type " : Text) :=
    ⟨(bare_of_isBare hexport).1, ' ', rfl, rfl, by decide, by decide⟩
  have hconst' : Joint callee (">\nexport const " : Text) := joint_of_isJoint hcallee hconst
  have hequals' : Joint callee (" = " : Text) := joint_of_isJoint hcallee hequals
  have hnamed : Becomes callee change name name := becomes_name hcallee hname
  have hnil : Woven callee change 0 [] [] := Woven.nil
  have hstart := hnil.seam hcallee hexport' (through_plain rfl 0)
  have htype := hstart.join hcallee hnamed hdeclares.joint (through_plain hdeclares.plain 0)
  have hboth := htype.join hcallee hnamed hconst' (through_plain rfl 0)
  exact hboth.join hcallee hnamed hequals' (through_plain rfl 0)

/-- A declaration becomes the one of what its schema becomes. -/
theorem replaced_typeAndConst (hcallee : Callable callee) (hmark : callee ∈ marks)
    (hdeclares : Declares callee typeOf) (hname : name.IsNamed)
    (hschema : Becomes callee change schema schema') (hbefore : startsName before = true)
    (rest : Text) :
    replaced callee change before (typeAndConst typeOf name schema ++ rest) =
      typeAndConst typeOf name schema' ++ replaced callee change (some '\n') rest := by
  have hwoven : Woven callee change 0 (lead typeOf name) (lead typeOf name) :=
    woven_lead hcallee hmark hdeclares hname
  have hlead := hwoven.replaced 0 before (schema ++ ("\n" ++ rest)) hbefore
  have hparted : Parted callee ("\n" ++ rest) := parted_of_head rfl (hcallee.not_mem rfl)
  have hopen : ("\n" ++ rest : Text).head? ≠ some '(' := fun hhead =>
    absurd (Option.some.inj hhead) (by decide)
  have hbehind := hschema.replaced 0 (some ' ') ("\n" ++ rest) rfl hparted hopen
  have hline : Clear callee ("\n" : Text) := by
    obtain ⟨-, -, -, hend, -⟩ := mark_seams hmark
    exact clear_of_isClear (Bool.and_eq_true_iff.1 hend).1
  have hend := @replaced_clear callee change schema.getLast? "\n" rest hline
  rw [getLast?_lead] at hlead
  rw [typeAndConst_eq, typeAndConst_eq, List.append_assoc, List.append_assoc schema,
    List.append_assoc, List.append_assoc schema']
  refine hlead.trans (congrArg (lead typeOf name ++ ·) (hbehind.trans ?_))
  exact congrArg (schema' ++ ·) hend

/-- The declarations of a model become those of a dialect in which all types
are what they become. -/
theorem replaced_body (hcallee : Callable callee) (hmark : callee ∈ marks)
    (hdeclares : Declares callee typeOf) (hfirst : first.declaration = typeAndConst typeOf)
    (hsecond : second.declaration = typeAndConst typeOf) (hcongruent : Congruent R first second)
    (hR : ∀ {text new}, R text new → Becomes callee change text new)
    (hmodel : model.Readable) (hbefore : startsName before = true) :
    replaced callee change before (body first model) = body second model := by
  obtain ⟨declarations⟩ := model
  have hdeclaration {declaration : Declaration} (h : declaration.name.IsNamed ∧
      declaration.shape.WellSpelled) {before : Option Char} (hbefore : startsName before = true)
      (rest : Text) :
      replaced callee change before (writeDeclaration first declaration ++ rest) =
        writeDeclaration second declaration ++ replaced callee change (some '\n') rest := by
    rw [writeDeclaration, writeDeclaration, hfirst, hsecond]
    exact replaced_typeAndConst hcallee hmark hdeclares h.1 (hR (hcongruent.writeShape h.2)) hbefore
      rest
  induction declarations generalizing before with
  | nil => exact replaced_nil
  | cons declaration rest ih =>
    have hhere := hmodel declaration List.mem_cons_self
    have hthere : Model.Readable ⟨rest⟩ := fun other hother =>
      hmodel other (List.mem_cons_of_mem _ hother)
    cases rest with
    | nil =>
      have hlast := hdeclaration hhere hbefore []
      rw [replaced_nil, List.append_nil, List.append_nil] at hlast
      rw [body_singleton, body_singleton, hlast]
    | cons next more =>
      have hline : ¬callee <+: '\n' :: body first ⟨next :: more⟩ := fun hlead => by
        obtain ⟨c, others, hcons⟩ := List.exists_cons_of_ne_nil hcallee.ne_nil
        rw [hcons] at hlead
        obtain rfl := (List.cons_prefix_cons.1 hlead).1
        exact hcallee.not_mem rfl (hcons ▸ List.mem_cons_self)
      rw [body_cons, body_cons, hdeclaration hhere hbefore, replaced_cons hline, ih rfl hthere]

/-- A file becomes the one with the declarations as they become, if the calls
are not those at its top. -/
theorem replaceCalls_emit (hcallee : Callable callee) (hmark : callee ∈ marks)
    (hdeclares : Declares callee typeOf) (hfirst : first.declaration = typeAndConst typeOf)
    (hsecond : second.declaration = typeAndConst typeOf)
    (himports : first.imports = some imports) (himports' : second.imports = some imports)
    (hclear : isClear callee (imports ++ "\n\n") = true) (hcongruent : Congruent R first second)
    (hR : ∀ {text new}, R text new → Becomes callee change text new)
    (hmodel : model.Readable) :
    replaceCalls callee change (first.emit model) = second.emit model := by
  have hlast : (imports ++ "\n\n" : Text).getLast? = some '\n' := by
    rw [List.getLast?_append]
    rfl
  have hreplaced := @replaced_clear callee change none _ (body first model)
    (clear_of_isClear hclear)
  rw [hlast] at hreplaced
  rw [emit_eq himports, emit_eq himports']
  refine hreplaced.trans (congrArg (imports ++ "\n\n" ++ ·) ?_)
  exact replaced_body hcallee hmark hdeclares hfirst hsecond hcongruent hR hmodel rfl

/-- A mark stands in no declarations of a model if it stands in no type and in
none of the texts between names. -/
theorem lacks_body (hmark : mark ∈ marks) {c : Char} (hmem : c ∈ mark)
    (hc : startsName (some c) = true) (hfirst : first.declaration = typeAndConst typeOf)
    (htypeOf : isSeam mark (" = " ++ typeOf ++ "<typeof ") = true)
    (hupholds : Upholds (Lacks mark) (Bare (Lacks mark)) first)
    (hmodel : model.Readable) : Lacks mark (body first model) := by
  obtain ⟨declarations⟩ := model
  obtain ⟨-, -, -, hend, -⟩ := mark_seams hmark
  have hnil : Lacks mark [] := (layable_marks hmark).nil
  have hmarks : marks.all (fun mark => isClear mark "export type " &&
      isSeam mark ">\nexport const " && isSeam mark " = ") = true := rfl
  have hfixed := List.all_eq_true.1 hmarks mark hmark
  rw [Bool.and_eq_true, Bool.and_eq_true] at hfixed
  obtain ⟨⟨hexport, hconst⟩, hequals⟩ := hfixed
  have hdeclaration {declaration : Declaration} (h : declaration.name.IsNamed ∧
      declaration.shape.WellSpelled) {rest : Text} (hrest : Lacks mark rest) :
      Lacks mark (writeDeclaration first declaration ++ rest) := by
    have hname := lacks_name hmem hc h.1
    have hwritten := hupholds.writeShape h.2 fun text htext => h.2.unmarked text htext mark hmark
    have hschema := joins_of_isSeam hend hwritten.1 hrest
    have hlast := joins_of_isSeam hequals hname hschema
    have hboth := joins_of_isSeam htypeOf hname (joins_of_isSeam hconst hname hlast)
    have hall := opens_of_isClear hexport hboth
    rw [writeDeclaration, hfirst, typeAndConst_eq]
    unfold lead
    simpa only [List.append_assoc] using hall
  induction declarations with
  | nil => exact hnil
  | cons declaration rest ih =>
    have hhere := hmodel declaration List.mem_cons_self
    have hthere : Model.Readable ⟨rest⟩ := fun other hother =>
      hmodel other (List.mem_cons_of_mem _ hother)
    cases rest with
    | nil =>
      rw [body_singleton]
      simpa using hdeclaration hhere hnil
    | cons next more =>
      have hline : Clear mark ("\n" : Text) := clear_of_isClear (Bool.and_eq_true_iff.1 hend).1
      rw [body_cons]
      exact hdeclaration hhere (hline.lacks_append (ih hthere))

end Declarations

section Targets

variable {model : Model}

/-- What a dialect writes does not depend on its imports. -/
theorem body_imports (dialect : Dialect) (imports : Option Text) (hmodel : model.Readable) :
    body { dialect with imports := imports } model = body dialect model := by
  have hlists {first second : List Text} (h : List.Forall₂ Eq first second) : first = second := by
    rwa [List.forall₂_eq_eq_eq] at h
  have hfields {first second : List WrittenField}
      (h : List.Forall₂ (WrittenField.Related Eq) first second) : first = second := by
    induction h with
    | nil => rfl
    | cons hfield _ ih => rw [ih, hfield.eq, ← hfield.value]
  have hcongruent : Congruent Eq { dialect with imports := imports } dialect :=
    { keyword := fun _ => rfl
      date := rfl
      literal := fun _ _ => rfl
      reference := fun _ _ => rfl
      array := fun h => by rw [h]
      tuple := fun h => by rw [hlists h]
      union := fun h => by rw [hlists h]
      intersection := fun _ h => by rw [hlists h]
      object := fun h => by rw [hfields h]
      record := fun hkey hvalue => by rw [hkey, hvalue] }
  rw [body, body]
  refine congrArg (joinWith "\n") (List.map_congr_left fun declaration hdeclaration => ?_)
  rw [writeDeclaration, writeDeclaration,
    hcongruent.writeShape (hmodel declaration hdeclaration).2]

/-- The declarations of `zod` code. -/
theorem declares_zod : Declares "z.record" "z.infer" :=
  ⟨joint_of_isJoint callable_zodRecord rfl, rfl⟩

/-- The declarations of `effect` code. -/
theorem declares_effect : Declares "ES.Record" "ES.Schema.Type" :=
  ⟨joint_of_isJoint callable_effectRecord rfl, rfl⟩

/-- The fixup of `zod` code gives strings as keys to its records and leaves
fixed code alone. -/
theorem apply_zod (hmodel : model.Readable) :
    Fixup.apply .zod (zod.emit model) = zodFixed.emit model ∧
      Fixup.apply .zod (zodFixed.emit model) = zodFixed.emit model :=
  ⟨replaceCalls_emit callable_zodRecord (by decide) declares_zod rfl rfl rfl rfl rfl
    zod_becomes id hmodel,
  replaceCalls_emit callable_zodRecord (by decide) declares_zod rfl rfl rfl rfl rfl
    zodFixed_becomes id hmodel⟩

/-- The fixups of `effect` code name the arguments of its records and change
the package, and leave fixed code alone. -/
theorem apply_effect (hmodel : model.Readable) :
    Fixup.apply .effect (effect.emit model) = effectFixed.emit model ∧
      Fixup.apply .effect (effectFixed.emit model) = effectFixed.emit model := by
  have hcallee := callable_effectRecord
  have hmark : ("ES.Record" : Text) ∈ marks := by decide
  have hlacks : ¬"@effect/schema".toList <:+: body effectFixed model :=
    @lacks_body "ES.Schema.Type" "@effect/schema" effectFixed model (by decide) '@' (by decide) rfl
      rfl rfl effectFixed_bare hmodel
  have hpair := replaceCalls_emit hcallee hmark declares_effect rfl rfl rfl rfl rfl
    effect_becomes And.left hmodel
  have hvalue := replaceCalls_emit hcallee hmark declares_effect rfl rfl rfl rfl rfl
    effectBetween_becomes And.left hmodel
  have hstay {change : List Text → Option Text}
      (hchange : ∀ argument : Text, argument.head? = some '\x7b' → change [argument] = none) :
      replaceCalls "ES.Record" change (effectFixed.emit model) = effectFixed.emit model :=
    replaceCalls_emit hcallee hmark declares_effect rfl rfl rfl rfl rfl
      (effectFixed_becomes hchange) And.left hmodel
  have happly (code : Text) : Fixup.apply .effect code =
      replaceAll "@effect/schema" "effect" (replaceCalls "ES.Record" Fixup.effectValue
        (replaceCalls "ES.Record" Fixup.effectPair code)) := rfl
  rw [happly, happly]
  refine ⟨?_, ?_⟩
  · have hclear : Clear "@effect/schema" ("import \x7b Schema as ES \x7d from '" : Text) :=
      clear_of_isClear rfl
    have hquote : Clear "@effect/schema" ("'\n\n" : Text) := clear_of_isClear rfl
    have hself := @replaceAll_eq_self "@effect/schema" "effect" _ (hquote.lacks_append hlacks)
    have hreplaced := @replaceAll_append "@effect/schema" "effect" _ (by decide) hclear
      ("'\n\n" ++ body effectFixed model)
    rw [hself] at hreplaced
    rw [hpair, hvalue, emit_eq rfl, emit_eq rfl]
    rw [← body_imports _ effectFixed.imports hmodel]
    exact hreplaced
  · rw [hstay fun _ _ => rfl, hstay fun argument hargument => if_pos hargument]
    refine replaceAll_eq_self ?_
    have hclear : Clear "@effect/schema"
        ("import \x7b Schema as ES \x7d from 'effect'\n\n" : Text) := clear_of_isClear rfl
    exact hclear.lacks_append hlacks

/-- The fixup of `yup` code imports a namespace and leaves fixed code alone. -/
theorem apply_yup (hmodel : model.Readable) :
    Fixup.apply .yup (yup.emit model) = yupFixed.emit model ∧
      Fixup.apply .yup (yupFixed.emit model) = yupFixed.emit model := by
  have hbody : body yupFixed model = body yup model := body_imports yup _ hmodel
  have hlacks : ¬"import y from".toList <:+: body yup model :=
    @lacks_body "y.InferType" "import y from" yup model (by decide) ' ' (by decide) rfl rfl
      rfl yup_bare hmodel
  have hemit : yup.emit model = "import y from 'yup'" ++ ("\n\n" ++ body yup model) :=
    (emit_eq rfl).trans (List.append_assoc _ _ _)
  have hfixed : yupFixed.emit model = "import * as y from 'yup'" ++ ("\n\n" ++ body yup model) :=
    (emit_eq rfl).trans (hbody ▸ List.append_assoc _ _ _)
  have happly (code : Text) : Fixup.apply .yup code =
      replaceFirst "import y from 'yup'" "import * as y from 'yup'" code := rfl
  rw [hemit, hfixed, happly, happly]
  refine ⟨replaceFirst_append (by decide) _, replaceFirst_eq_self fun hinside => ?_⟩
  have hclear : Clear "import y from" ("import * as y from 'yup'" : Text) :=
    clear_of_isClear rfl
  have hline : Clear "import y from" ("\n\n" : Text) := clear_of_isClear rfl
  have hlead : "import y from".toList <:+: "import y from 'yup'".toList :=
    ⟨[], " 'yup'".toList, rfl⟩
  exact hclear.lacks_append (hline.lacks_append hlacks) (hlead.trans hinside)

/-- The dialect that writes the code of a target as it is after the fixups. -/
def fixed? : Target → Option Dialect
  | .zod => some zodFixed
  | .yup => some yupFixed
  | .effect => some effectFixed
  | .valibot => some valibot
  | .jsonschema => some jsonSchema
  | .typebox | .types => none

/-- The fixups of a target make the code of the fixed dialect, whatever
characters of names the declared names consist of. -/
theorem apply_of_readable {target : Target} {dialect fixed : Dialect}
    (hdialect : target.dialect? = some dialect) (hfixed : fixed? target = some fixed)
    (hmodel : model.Readable) :
    Fixup.apply target (dialect.emit model) = fixed.emit model ∧
      Fixup.apply target (fixed.emit model) = fixed.emit model := by
  cases target with
  | typebox | types => cases hdialect
  | zod =>
    cases hdialect
    cases hfixed
    exact apply_zod hmodel
  | effect =>
    cases hdialect
    cases hfixed
    exact apply_effect hmodel
  | yup =>
    cases hdialect
    cases hfixed
    exact apply_yup hmodel
  | valibot | jsonschema =>
    cases hdialect
    cases hfixed
    exact ⟨rfl, rfl⟩

/-- The fixups of a target make the code of the fixed dialect of what the
dialect of the target writes, and leave the code of the fixed dialect alone. -/
theorem apply_emit {target : Target} {dialect fixed : Dialect}
    (hdialect : target.dialect? = some dialect) (hfixed : fixed? target = some fixed)
    (hmodel : model.WellSpelled) :
    Fixup.apply target (dialect.emit model) = fixed.emit model ∧
      Fixup.apply target (fixed.emit model) = fixed.emit model :=
  apply_of_readable hdialect hfixed hmodel.readable

/-- An interface with records in records and in an object. -/
def nestedRecords : Model :=
  ⟨[⟨"A", .object [.reference "B.C"] [⟨"by key", .record (.keyword .string)
    (.record (.literal (.string "it's"))
      (.object [⟨"n", .record (.keyword .string) (.literal (.number "1.5e+3")), true, false⟩])),
    true, false⟩]⟩]⟩

/-- The records of an interface are fixed for three targets. -/
theorem apply_emit_nestedRecords : nestedRecords.WellSpelled ∧
    Fixup.apply .zod (zod.emit nestedRecords) = zodFixed.emit nestedRecords ∧
    Fixup.apply .yup (yup.emit nestedRecords) = yupFixed.emit nestedRecords ∧
    Fixup.apply .effect (effect.emit nestedRecords) = effectFixed.emit nestedRecords := by
  have hnumber : SchemaType.WellSpelled (.literal (.number "1.5e+3")) :=
    .literal ⟨by decide, List.all_eq_true.1 rfl⟩
  have hunmarked {text : Text} (h : marks.all (fun mark => !isInside mark text) = true) :
      Unmarked text := fun mark hmark => by
    have hmark' := List.all_eq_true.1 h mark hmark
    rw [Bool.not_eq_true'] at hmark'
    exact lacks_of_isInside hmark'
  have hinner : SchemaType.WellSpelled
      (.object [⟨"n", .record (.keyword .string) (.literal (.number "1.5e+3")), true, false⟩]) := by
    refine .object (List.forall_mem_singleton.2 ?_) (List.forall_mem_singleton.2 ?_)
    · exact hunmarked rfl
    · exact .record (.keyword _) hnumber
  have hquoted : SchemaType.WellSpelled (.literal (.string "it's")) := .literal (hunmarked rfl)
  have hmodel : nestedRecords.WellSpelled := by
    refine List.forall_mem_singleton.2 ⟨isDotted_of_isIdentifier (by decide), List.forall_mem_singleton.2 ?_, ?_⟩
    · exact .reference ⟨["B", "C"], by simp, by decide, rfl⟩
    · refine .object (List.forall_mem_singleton.2 ?_) (List.forall_mem_singleton.2 ?_)
      · exact hunmarked rfl
      · exact .record (.keyword _) (.record hquoted hinner)
  exact ⟨hmodel, (apply_emit rfl rfl hmodel).1, (apply_emit rfl rfl hmodel).1,
    (apply_emit rfl rfl hmodel).1⟩

end Targets

end Dialect

end InterfaceSchema
