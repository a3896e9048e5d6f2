import InterfaceSchema.Proofs.Dialect.Convertibility

/-!
# TypeBox and schema models

A source that has code for TypeBox has a model. Where the arguments of utility
types are written, both ways accept the same sources, and where there are none
of these, TypeBox writes what the model says. The model has no place for the
record that an interface stands for besides the types it extends; TypeBox
writes it.
-/

namespace InterfaceSchema

/-- The interface extends a type and stands for a record besides. -/
def Item.ExtendsWithRecord : Item → Prop
  | .interfaceItem decl => decl.bases ≠ [] ∧ TypeBox.isRecord decl.members = true
  | _ => False

namespace TypeBox

/-- The text declares for TypeBox what the statement and its declaration in the
model do. Without arguments of utility types it is the schema of the model,
unless that has no place for a record. -/
structure Declares (item : Item) (text : Text) (found : Declaration) : Prop where
  name : item.name? = some found.name
  schema : ∃ schema, text = declaration found.name schema ∧
    (utilityArgumentsOfItem item = [] → ¬item.ExtendsWithRecord → schema = writeShape found.shape)

/-- The shape of an interface with these extended types and this body. -/
theorem exists_shape (name : Text) (bases : List SchemaType) (body : SchemaType) :
    ∃ shape, (match body with
        | .object fields => (.ok ⟨name, .object bases fields⟩ : Except Unsupported Declaration)
        | record => .ok ⟨name, if bases.isEmpty then .type record else .object bases []⟩) =
          .ok ⟨name, shape⟩ ∧
      ((bases = [] ∨ ∃ fields, body = .object fields) → writeShape shape =
        if bases.isEmpty then dialect.writeType body
        else "Type.Intersect(" ++
          Layout.block "[" (dialect.writeTypes bases ++ [dialect.writeType body]) "]" ++ ")") := by
  cases body with
  | object fields => exact ⟨.object bases fields, rfl, fun _ => rfl⟩
  | keyword | date | literal | reference | array | tuple | union | intersection | record =>
    refine ⟨_, rfl, fun h => ?_⟩
    rcases h with rfl | ⟨fields, hfields⟩
    · rfl
    · cases hfields

/-- An interface that is written has a declaration in the model. -/
theorem exists_ofInterface {decl : InterfaceDecl} {text : Text}
    (h : writeInterface decl = .ok text) :
    ∃ found, Schema.ofInterface decl = .ok found ∧ Declares (.interfaceItem decl) text found := by
  obtain ⟨name, nameSpan, exported, parameters, bases, members, span⟩ := decl
  cases parameters with
  | some span => cases h
  | none =>
    obtain ⟨body, hbody, h⟩ := bind_eq_ok.1 h
    obtain ⟨schema, hschema, heq⟩ := exists_ofMembers hbody
    cases bases with
    | nil =>
      cases h
      obtain ⟨shape, hshape, hwritten⟩ := exists_shape name [] schema
      have hfound : Schema.ofInterface ⟨name, nameSpan, exported, none, [], members, span⟩ =
          .ok ⟨name, shape⟩ :=
        bind_eq_ok.2 ⟨[], rfl, bind_eq_ok.2 ⟨schema, hschema, hshape⟩⟩
      refine ⟨⟨name, shape⟩, hfound, rfl, body, rfl, fun hfree _ => ?_⟩
      rw [hwritten (.inl rfl), heq hfree]
      rfl
    | cons base rest =>
      obtain ⟨texts, htexts, h⟩ := bind_eq_ok.1 h
      cases h
      obtain ⟨schemas, hschemas, heqs⟩ := exists_ofTypes (base :: rest) htexts
      obtain ⟨shape, hshape, hwritten⟩ := exists_shape name schemas schema
      have hfound : Schema.ofInterface
          ⟨name, nameSpan, exported, none, base :: rest, members, span⟩ = .ok ⟨name, shape⟩ :=
        bind_eq_ok.2 ⟨schemas, hschemas, bind_eq_ok.2 ⟨schema, hschema, hshape⟩⟩
      refine ⟨⟨name, shape⟩, hfound, rfl, _, rfl, fun hfree hplain => ?_⟩
      obtain ⟨hbases, hmembers⟩ := List.append_eq_nil_iff.1 hfree
      have hrecord : isRecord members = false :=
        Bool.eq_false_iff.2 fun hrecord => hplain ⟨List.cons_ne_nil _ _, hrecord⟩
      have hne : schemas.isEmpty = false := by
        obtain ⟨first, -, h⟩ := bind_eq_ok.1 hschemas
        obtain ⟨others, -, h⟩ := bind_eq_ok.1 h
        cases h
        rfl
      rw [hwritten (.inr (exists_fields hschema hrecord hbody)), hne, heq hmembers, heqs hbases]
      rfl

/-- An alias that is written has a declaration in the model. -/
theorem exists_ofAlias {decl : AliasDecl} {text : Text} (h : writeAlias decl = .ok text) :
    ∃ found, Schema.ofAlias decl = .ok found ∧ Declares (.aliasItem decl) text found := by
  obtain ⟨name, nameSpan, exported, parameters, type, span⟩ := decl
  cases parameters with
  | some span => cases h
  | none =>
    obtain ⟨body, hbody, h⟩ := bind_eq_ok.1 h
    cases h
    obtain ⟨schema, hschema, heq⟩ := exists_ofType type hbody
    exact ⟨⟨name, .type schema⟩, bind_eq_ok.2 ⟨schema, hschema, rfl⟩, rfl, body, rfl,
      fun hfree _ => heq hfree⟩

/-- Statements that are written have declarations in the model, in order. -/
theorem exists_ofItems {items : List Item} {texts : List Text} (h : writeItems items = .ok texts) :
    ∃ written : List (Text × Declaration), texts = written.map Prod.fst ∧
      Schema.ofItems items = .ok (written.map Prod.snd) ∧
      List.Forall₂ (fun item entry => Declares item entry.1 entry.2)
        (items.filter fun item => item.name?.isSome) written := by
  induction items generalizing texts with
  | nil =>
    cases h
    exact ⟨[], rfl, rfl, .nil⟩
  | cons item rest ih =>
    have hcons {first : Text} {found : Declaration}
        (hdeclares : Declares item first found) {others : List Text}
        (hothers : writeItems rest = .ok others)
        (hitem : Schema.ofItems (item :: rest) = do
          let others ← Schema.ofItems rest
          .ok (found :: others)) :
        ∃ written : List (Text × Declaration), first :: others = written.map Prod.fst ∧
          Schema.ofItems (item :: rest) = .ok (written.map Prod.snd) ∧
          List.Forall₂ (fun item entry => Declares item entry.1 entry.2)
            ((item :: rest).filter fun item => item.name?.isSome) written := by
      obtain ⟨written, rfl, hfound, hall⟩ := ih hothers
      refine ⟨(first, found) :: written, rfl, ?_, ?_⟩
      · rw [hitem, hfound]
        rfl
      · rw [List.filter_cons_of_pos (by rw [hdeclares.name]; rfl)]
        exact .cons hdeclares hall
    cases item with
    | interfaceItem decl =>
      obtain ⟨first, hfirst, h⟩ := bind_eq_ok.1 h
      obtain ⟨others, hothers, h⟩ := bind_eq_ok.1 h
      cases h
      obtain ⟨found, hfound, hdeclares⟩ := exists_ofInterface hfirst
      exact hcons hdeclares hothers (by rw [Schema.ofItems, hfound]; rfl)
    | aliasItem decl =>
      obtain ⟨first, hfirst, h⟩ := bind_eq_ok.1 h
      obtain ⟨others, hothers, h⟩ := bind_eq_ok.1 h
      cases h
      obtain ⟨found, hfound, hdeclares⟩ := exists_ofAlias hfirst
      exact hcons hdeclares hothers (by rw [Schema.ofItems, hfound]; rfl)
    | importItem | otherItem => exact ih h

/-- An interface with a declaration in the model is written if the arguments
of its utility types are. -/
theorem exists_writeInterface {decl : InterfaceDecl} {found : Declaration}
    (h : Schema.ofInterface decl = .ok found)
    (hargs : ∀ argument ∈ utilityArgumentsOfItem (.interfaceItem decl), Written argument) :
    ∃ text, writeInterface decl = .ok text := by
  obtain ⟨name, nameSpan, exported, parameters, bases, members, span⟩ := decl
  cases parameters with
  | some span => cases h
  | none =>
    obtain ⟨hbases, hmembers⟩ := List.forall_mem_append.1 hargs
    obtain ⟨schemas, hschemas, h⟩ := bind_eq_ok.1 h
    obtain ⟨schema, hschema, -⟩ := bind_eq_ok.1 h
    obtain ⟨body, hbody⟩ := written_of_ofType (.object members span) hschema hmembers
    obtain ⟨texts, htexts⟩ := exists_writeTypes_of_ofTypes bases hschemas hbases
    cases bases with
    | nil => exact ⟨_, bind_eq_ok.2 ⟨body, hbody, rfl⟩⟩
    | cons base rest => exact ⟨_, bind_eq_ok.2 ⟨body, hbody, bind_eq_ok.2 ⟨texts, htexts, rfl⟩⟩⟩

/-- An alias with a declaration in the model is written if the arguments of its
utility types are. -/
theorem exists_writeAlias {decl : AliasDecl} {found : Declaration}
    (h : Schema.ofAlias decl = .ok found)
    (hargs : ∀ argument ∈ utilityArgumentsOfItem (.aliasItem decl), Written argument) :
    ∃ text, writeAlias decl = .ok text := by
  obtain ⟨name, nameSpan, exported, parameters, type, span⟩ := decl
  cases parameters with
  | some span => cases h
  | none =>
    obtain ⟨schema, hschema, -⟩ := bind_eq_ok.1 h
    obtain ⟨body, hbody⟩ := written_of_ofType type hschema hargs
    exact ⟨_, bind_eq_ok.2 ⟨body, hbody, rfl⟩⟩

/-- Statements with declarations in the model are written if the arguments of
their utility types are. -/
theorem exists_writeItems {items : List Item} {declarations : List Declaration}
    (h : Schema.ofItems items = .ok declarations)
    (hargs : ∀ argument ∈ items.flatMap utilityArgumentsOfItem, Written argument) :
    ∃ texts, writeItems items = .ok texts := by
  induction items generalizing declarations with
  | nil => exact ⟨[], rfl⟩
  | cons item rest ih =>
    rw [List.flatMap_cons, List.forall_mem_append] at hargs
    obtain ⟨hitem, hrest⟩ := hargs
    cases item with
    | interfaceItem decl =>
      obtain ⟨found, hfound, h⟩ := bind_eq_ok.1 h
      obtain ⟨others, hothers, -⟩ := bind_eq_ok.1 h
      obtain ⟨text, htext⟩ := exists_writeInterface hfound hitem
      obtain ⟨texts, htexts⟩ := ih hothers hrest
      exact ⟨_, bind_eq_ok.2 ⟨text, htext, bind_eq_ok.2 ⟨texts, htexts, rfl⟩⟩⟩
    | aliasItem decl =>
      obtain ⟨found, hfound, h⟩ := bind_eq_ok.1 h
      obtain ⟨others, hothers, -⟩ := bind_eq_ok.1 h
      obtain ⟨text, htext⟩ := exists_writeAlias hfound hitem
      obtain ⟨texts, htexts⟩ := ih hothers hrest
      exact ⟨_, bind_eq_ok.2 ⟨text, htext, bind_eq_ok.2 ⟨texts, htexts, rfl⟩⟩⟩
    | importItem | otherItem => exact ih h hrest

/-- Each written text declares what a declaration of the model does. -/
theorem exists_declares {items : List Item} {written : List (Text × Declaration)}
    (h : List.Forall₂ (fun item entry => Declares item entry.1 entry.2) items written)
    {entry : Text × Declaration} (hentry : entry ∈ written) :
    ∃ item, Declares item entry.1 entry.2 := by
  induction h with
  | nil => cases hentry
  | cons hfirst _ ih =>
    rcases List.mem_cons.1 hentry with rfl | hentry
    · exact ⟨_, hfirst⟩
    · exact ih hentry

/-- Written statements declare the names that the model does, in order. -/
theorem exists_declarations {items : List Item} {texts : List Text}
    (h : writeItems items = .ok texts) :
    ∃ declarations, Schema.ofItems items = .ok declarations ∧
      List.Forall₂ (fun text found => ∃ schema, text = declaration found.name schema) texts
        declarations := by
  obtain ⟨written, rfl, hitems, hall⟩ := exists_ofItems h
  refine ⟨written.map Prod.snd, hitems, ?_⟩
  rw [List.forall₂_map_left_iff, List.forall₂_map_right_iff, List.forall₂_same]
  intro entry hentry
  obtain ⟨item, hdeclares⟩ := exists_declares hall hentry
  exact hdeclares.schema.imp fun schema h => h.1

/-- A translation succeeds however its faults are reported. -/
theorem mapError_eq_ok {ε δ α : Type} {found : Except ε α} {report : ε → δ} {value : α} :
    found.mapError report = .ok value ↔ found = .ok value := by
  cases found <;> simp [Except.mapError]

/-- Code for TypeBox comes from written statements. -/
theorem generate_ok_iff {source text : Text} : generate source = .ok text ↔
    ∃ file texts, SourceFile.read source = some file ∧ writeItems file.items = .ok texts ∧
      text = imports ++ "\n\n" ++ Text.joinWith "\n" texts := by
  rw [generate]
  cases SourceFile.read source with
  | none => simp
  | some file => simp only [mapError_eq_ok, emit, bind_eq_ok, Option.some.injEq, Except.ok.injEq,
      eq_comm (b := text), exists_and_left, exists_eq_left']

/-- The model of a source comes from the declarations in it. -/
theorem ofSource_ok_iff {source : Text} {model : Model} : Model.ofSource source = .ok model ↔
    ∃ file, SourceFile.read source = some file ∧
      Schema.ofItems file.items = .ok model.declarations := by
  rw [Model.ofSource]
  cases SourceFile.read source with
  | none => simp
  | some file =>
    obtain ⟨declarations⟩ := model
    simp only [mapError_eq_ok, Model.ofFile, bind_eq_ok, Option.some.injEq, Except.ok.injEq,
      Model.mk.injEq, exists_eq_right, exists_eq_left']

/-- A source that has code for TypeBox has a model. -/
theorem exists_ofSource {source text : Text} (h : generate source = .ok text) :
    ∃ model, Model.ofSource source = .ok model := by
  obtain ⟨file, texts, hread, htexts, -⟩ := generate_ok_iff.1 h
  obtain ⟨declarations, hitems, -⟩ := exists_declarations htexts
  exact ⟨⟨declarations⟩, ofSource_ok_iff.2 ⟨file, hread, hitems⟩⟩

/-- A source that has code for TypeBox has a model. If the arguments of the
utility types in it are written, a source that has a model has code for TypeBox.
Code and model declare the same names in the same order. -/
theorem generate_ok_iff_ofSource_ok (source : Text) :
    ((∃ text, generate source = .ok text) → ∃ model, Model.ofSource source = .ok model) ∧
    ((∀ file argument, SourceFile.read source = some file →
        argument ∈ file.items.flatMap utilityArgumentsOfItem → Written argument) →
      ((∃ text, generate source = .ok text) ↔ ∃ model, Model.ofSource source = .ok model)) ∧
    ∀ text model, generate source = .ok text → Model.ofSource source = .ok model →
      ∃ file texts, SourceFile.read source = some file ∧ writeItems file.items = .ok texts ∧
        text = imports ++ "\n\n" ++ Text.joinWith "\n" texts ∧
        List.Forall₂ (fun text found => ∃ schema, text = declaration found.name schema) texts
          model.declarations := by
  have hmodel : (∃ text, generate source = .ok text) → ∃ model, Model.ofSource source = .ok model :=
    fun ⟨_, htext⟩ => exists_ofSource htext
  refine ⟨hmodel, fun hargs => ⟨hmodel, ?_⟩, fun text model htext hfound => ?_⟩
  · rintro ⟨model, hfound⟩
    obtain ⟨file, hread, hitems⟩ := ofSource_ok_iff.1 hfound
    obtain ⟨texts, htexts⟩ := exists_writeItems hitems fun argument => hargs file argument hread
    exact ⟨_, generate_ok_iff.2 ⟨file, texts, hread, htexts, rfl⟩⟩
  · obtain ⟨file, texts, hread, htexts, heq⟩ := generate_ok_iff.1 htext
    obtain ⟨declarations, hitems, hall⟩ := exists_declarations htexts
    obtain ⟨found, hsame, hdeclarations⟩ := ofSource_ok_iff.1 hfound
    cases hread.symm.trans hsame
    rw [Except.ok.inj (hdeclarations.symm.trans hitems)]
    exact ⟨file, texts, hread, htexts, heq, hall⟩

/-- A source with utility types whose arguments are written, one of them in an
object that extends another. It has code for TypeBox and a model. -/
theorem generate_ok_iff_ofSource_ok_utilities :
    let source : Text :=
      "interface A extends Required<B> \x7b readonly a?: Partial<\x7b c: Date \x7d> \x7d\n" ++
      "type D = Record<string, Pick<B, 'e' | 'f'>>"
    (∀ file argument, SourceFile.read source = some file →
      argument ∈ file.items.flatMap utilityArgumentsOfItem → Written argument) ∧
    ((∃ text, generate source = .ok text) ↔ ∃ model, Model.ofSource source = .ok model) ∧
    ∃ text model, generate source = .ok text ∧ Model.ofSource source = .ok model ∧
      ∃ file texts, SourceFile.read source = some file ∧ writeItems file.items = .ok texts ∧
        text = imports ++ "\n\n" ++ Text.joinWith "\n" texts ∧
        List.Forall₂ (fun text found => ∃ schema, text = declaration found.name schema) texts
          model.declarations := by
  intro source
  have hfound : ((SourceFile.read source).map fun file =>
      ((writeItems file.items).toOption.isSome,
        (file.items.flatMap utilityArgumentsOfItem).all fun argument =>
          (writeType argument).toOption.isSome)) = some (true, true) := by decide +kernel
  obtain ⟨file, hread, hparts⟩ := Option.map_eq_some_iff.1 hfound
  obtain ⟨hsome, hall⟩ := Prod.mk.inj hparts
  have hwritten : ∀ same argument, SourceFile.read source = some same →
      argument ∈ same.items.flatMap utilityArgumentsOfItem → Written argument := by
    intro same argument hsame hargument
    cases hread.symm.trans hsame
    obtain ⟨text, htext⟩ := Option.isSome_iff_exists.1 (List.all_eq_true.1 hall argument hargument)
    exact ⟨text, eq_ok_of_toOption htext⟩
  obtain ⟨texts, htexts⟩ := Option.isSome_iff_exists.1 hsome
  have htext : generate source = .ok (imports ++ "\n\n" ++ Text.joinWith "\n" texts) :=
    generate_ok_iff.2 ⟨file, texts, hread, eq_ok_of_toOption htexts, rfl⟩
  obtain ⟨haccepts, hiff, hdeclares⟩ := generate_ok_iff_ofSource_ok source
  obtain ⟨model, hmodel⟩ := haccepts ⟨_, htext⟩
  exact ⟨hwritten, hiff hwritten, _, model, htext, hmodel, hdeclares _ model htext hmodel⟩

/-- In a source without arguments of utility types, TypeBox is given the
declarations of the model, each of them written with its own functions. Only
an interface that extends a type and stands for a record besides may differ. -/
theorem generate_eq_writeShape {source text : Text} {file : SourceFile} {model : Model}
    (hread : SourceFile.read source = some file)
    (hfree : file.items.flatMap utilityArgumentsOfItem = [])
    (htext : generate source = .ok text) (hmodel : Model.ofSource source = .ok model) :
    ∃ written : List (Text × Declaration),
      text = imports ++ "\n\n" ++ Text.joinWith "\n" (written.map Prod.fst) ∧
      model.declarations = written.map Prod.snd ∧
      List.Forall₂ (fun item entry => item.name? = some entry.2.name ∧
          (¬item.ExtendsWithRecord →
            entry.1 = declaration entry.2.name (writeShape entry.2.shape)))
        (file.items.filter fun item => item.name?.isSome) written := by
  obtain ⟨found, texts, hfound, htexts, rfl⟩ := generate_ok_iff.1 htext
  obtain ⟨same, hsame, hdeclarations⟩ := ofSource_ok_iff.1 hmodel
  cases hread.symm.trans hfound
  cases hread.symm.trans hsame
  obtain ⟨written, rfl, hitems, hall⟩ := exists_ofItems htexts
  refine ⟨written, rfl, Except.ok.inj (hdeclarations.symm.trans hitems), ?_⟩
  have hnone : ∀ item ∈ file.items.filter fun item => item.name?.isSome,
      utilityArgumentsOfItem item = [] := fun item hitem =>
    List.flatMap_eq_nil_iff.1 hfree item (List.mem_of_mem_filter hitem)
  have hboth := (List.forall₂_and_left _ _).2 ⟨hnone, hall⟩
  refine hboth.imp fun item entry ⟨hitem, hdeclares⟩ => ⟨hdeclares.name, fun hplain => ?_⟩
  obtain ⟨schema, htext, heq⟩ := hdeclares.schema
  rw [htext, heq hitem hplain]

/-- A source with extended types, a record, optional and read-only properties,
and references with arguments that are left out. -/
theorem generate_eq_writeShape_documented :
    let source : Text :=
      "/** d */ interface A extends B, Set<C> \x7b readonly 'x-y'?: Date[] \x7d\n" ++
      "type D = Record<string, ReadonlyArray<E | null>>; interface F \x7b [k: string]: A \x7d"
    ∃ file text model, SourceFile.read source = some file ∧
      file.items.flatMap utilityArgumentsOfItem = [] ∧ generate source = .ok text ∧
      Model.ofSource source = .ok model ∧
      ∃ written : List (Text × Declaration),
        text = imports ++ "\n\n" ++ Text.joinWith "\n" (written.map Prod.fst) ∧
        model.declarations = written.map Prod.snd ∧
        List.Forall₂ (fun item entry => item.name? = some entry.2.name ∧
            (¬item.ExtendsWithRecord →
              entry.1 = declaration entry.2.name (writeShape entry.2.shape)))
          (file.items.filter fun item => item.name?.isSome) written := by
  intro source
  have hfound : ((SourceFile.read source).map fun file =>
      ((file.items.flatMap utilityArgumentsOfItem).isEmpty,
        (writeItems file.items).toOption.isSome)) = some (true, true) := by decide +kernel
  obtain ⟨file, hread, hparts⟩ := Option.map_eq_some_iff.1 hfound
  obtain ⟨hempty, hsome⟩ := Prod.mk.inj hparts
  obtain ⟨texts, htexts⟩ := Option.isSome_iff_exists.1 hsome
  have hfree := List.isEmpty_iff.1 hempty
  have htext : generate source = .ok (imports ++ "\n\n" ++ Text.joinWith "\n" texts) :=
    generate_ok_iff.2 ⟨file, texts, hread, eq_ok_of_toOption htexts, rfl⟩
  obtain ⟨model, hmodel⟩ := exists_ofSource htext
  exact ⟨file, _, model, hread, hfree, htext, hmodel,
    generate_eq_writeShape hread hfree htext hmodel⟩

/-- A model written with the functions of TypeBox may lack, whatever blanks
stand in it, what TypeBox is given: the record of an interface that extends a
type besides is in no model. -/
theorem not_generate_eq_writeShape :
    ¬∀ source file text model, SourceFile.read source = some file →
      file.items.flatMap utilityArgumentsOfItem = [] → generate source = .ok text →
        Model.ofSource source = .ok model →
          Text.compact text = Text.compact (imports ++ "\n\n" ++
            Text.joinWith "\n" (model.declarations.map fun found =>
              declaration found.name (writeShape found.shape))) := by
  intro h
  let source : Text := "interface A extends B \x7b [k: string]: number \x7d"
  let render (model : Model) : Text := imports ++ "\n\n" ++
    Text.joinWith "\n" (model.declarations.map fun found =>
      declaration found.name (writeShape found.shape))
  have hfound : ((SourceFile.read source).map fun file =>
      ((file.items.flatMap utilityArgumentsOfItem).isEmpty,
        (writeItems file.items).toOption.isSome,
        (writeItems file.items).toOption.map (fun texts =>
            Text.compact (imports ++ "\n\n" ++ Text.joinWith "\n" texts)) ==
          (Schema.ofItems file.items).toOption.map fun declarations =>
            Text.compact (render ⟨declarations⟩))) = some (true, true, false) := by decide +kernel
  obtain ⟨file, hread, hparts⟩ := Option.map_eq_some_iff.1 hfound
  obtain ⟨hempty, hrest⟩ := Prod.mk.inj hparts
  obtain ⟨hsome, hdiffer⟩ := Prod.mk.inj hrest
  obtain ⟨texts, htexts⟩ := Option.isSome_iff_exists.1 hsome
  have htext : generate source = .ok (imports ++ "\n\n" ++ Text.joinWith "\n" texts) :=
    generate_ok_iff.2 ⟨file, texts, hread, eq_ok_of_toOption htexts, rfl⟩
  obtain ⟨model, hmodel⟩ := exists_ofSource htext
  obtain ⟨same, hsame, hitems⟩ := ofSource_ok_iff.1 hmodel
  cases hread.symm.trans hsame
  have hequal := h source file _ model hread (List.isEmpty_iff.1 hempty) htext hmodel
  rw [htexts, hitems] at hdiffer
  exact absurd (congrArg some hequal) (beq_eq_false_iff_ne.1 hdiffer)

end TypeBox

end InterfaceSchema
