import InterfaceSchema.Dialect.TypeBox
import InterfaceSchema.Diagnostic
import InterfaceSchema.Proofs.Flatten.Slicing

/-!
# Where refused types stand

A report about a type without a schema shows the type as it stands in the source.
What is refused is a node of the tree, so its span is one of the tree's spans,
and these are sound if the tree was read: the type can be cut out of the source.
It makes no difference whether a schema model is built or TypeBox code written.
This is the last of the places where a span is used to cut the source, and all
that is known of the spans of a file is put together at the end.
-/

namespace InterfaceSchema

/-- What has no schema, if it can be cut out of the source. -/
def Unsupported.subject? (source : Text) : Unsupported → Option Text
  | .type span => (span.slice? source).map fun text => "type '" ++ text ++ "'"
  | .genericInterface _ => some ("a generic interface" : Text)
  | .genericAlias _ => some ("a generic type alias" : Text)

/-- What stands in the source can be shown. -/
theorem Unsupported.subject?_eq {source : Text} {unsupported : Unsupported}
    (h : unsupported.span.Sound source) :
    unsupported.subject? source = some (unsupported.subject source) := by
  cases unsupported with
  | type span =>
    have hspan : span.Sound source := h
    rw [Unsupported.subject?, hspan.slice?]
    rfl
  | genericInterface span => rfl
  | genericAlias span => rfl

/-- If the translation fails, it is because of something at one of the spans. -/
def RefusedIn {α : Type} (spans : List Span) (result : Except Unsupported α) : Prop :=
  ∀ unsupported, result = .error unsupported → unsupported.span ∈ spans

namespace RefusedIn

variable {α β : Type} {spans more : List Span}

/-- A translation that does not fail is refused nowhere. -/
theorem ok (value : α) : RefusedIn spans (.ok value) := by
  intro unsupported h
  cases h

/-- A translation that fails is refused where its reason stands. -/
theorem error {unsupported : Unsupported} (h : unsupported.span ∈ spans) :
    @RefusedIn α spans (.error unsupported) := by
  intro other heq
  cases heq
  exact h

/-- What is refused somewhere is refused among more spans. -/
theorem mono {result : Except Unsupported α} (h : RefusedIn spans result) (hsub : spans ⊆ more) :
    RefusedIn more result := fun unsupported herror => hsub (h unsupported herror)

/-- A translation with steps is refused where one of its steps is. -/
theorem bind {first : Except Unsupported α} {next : α → Except Unsupported β}
    (hfirst : RefusedIn spans first) (hnext : ∀ value, RefusedIn spans (next value)) :
    RefusedIn spans (first >>= next) := by
  intro unsupported h
  cases first with
  | ok value => exact hnext value unsupported h
  | error other =>
    obtain rfl : other = unsupported := Except.error.inj h
    exact hfirst other rfl

/-- A choice is refused where both ways are. -/
theorem ite {condition : Prop} [Decidable condition] {yes no : Except Unsupported α}
    (hyes : RefusedIn spans yes) (hno : RefusedIn spans no) :
    RefusedIn spans (if condition then yes else no) := by
  split
  · exact hyes
  · exact hno

end RefusedIn

/-- The spans of the first of several types are among those of all. -/
theorem spans_subset_first (type : TypeExpr) (rest : List TypeExpr) :
    type.spans ⊆ typesSpans (type :: rest) := List.subset_append_left _ _

/-- So are those of the others. -/
theorem spans_subset_others (type : TypeExpr) (rest : List TypeExpr) :
    typesSpans rest ⊆ typesSpans (type :: rest) := List.subset_append_right _ _

/-- The spans of the type of a property are among those of the members. -/
theorem spans_subset_property (head : PropertyHead) (type : TypeExpr) (rest : List Member) :
    type.spans ⊆ membersSpans (.property ⟨head, some type⟩ :: rest) :=
  List.subset_append_of_subset_left _ (List.subset_append_right head.spans _)

/-- So are those of the keys of an index signature. -/
theorem spans_subset_key (key value : TypeExpr) (isReadonly : Bool) (span : Span)
    (rest : List Member) : key.spans ⊆ membersSpans (.index key value isReadonly span :: rest) :=
  List.subset_append_of_subset_left _
    (List.subset_cons_of_subset _ (List.subset_append_left _ value.spans))

/-- And those of its values. -/
theorem spans_subset_value (key value : TypeExpr) (isReadonly : Bool) (span : Span)
    (rest : List Member) : value.spans ⊆ membersSpans (.index key value isReadonly span :: rest) :=
  List.subset_append_of_subset_left _
    (List.subset_cons_of_subset _ (List.subset_append_right key.spans _))

/-- The spans of the types that an interface extends are among its spans. -/
theorem bases_subset_spans (decl : InterfaceDecl) :
    typesSpans decl.bases ⊆ (Item.interfaceItem decl).spans := by
  refine List.subset_cons_of_subset _ (List.subset_cons_of_subset _ ?_)
  exact List.subset_append_of_subset_right _ (List.subset_append_left _ _)

/-- So are those of its members. -/
theorem members_subset_spans (decl : InterfaceDecl) :
    membersSpans decl.members ⊆ (Item.interfaceItem decl).spans := by
  refine List.subset_cons_of_subset _ (List.subset_cons_of_subset _ ?_)
  exact List.subset_append_of_subset_right _ (List.subset_append_right _ _)

/-- The spans of the type of an alias are among its spans. -/
theorem type_subset_spans (decl : AliasDecl) : decl.type.spans ⊆ (Item.aliasItem decl).spans :=
  List.subset_cons_of_subset _ (List.subset_cons_of_subset _ (List.subset_append_right _ _))

namespace Schema

mutual

/-- A type is refused for one of its parts. -/
theorem refused_ofType : (type : TypeExpr) → RefusedIn type.spans (ofType type)
  | .keyword _ _ | .literal _ _ => by
    rw [ofType]
    exact .ok _
  | .unsupported span => by
    rw [ofType]
    exact .error (List.mem_singleton_self span)
  | .reference name [] span => by
    rw [ofType]
    exact .ok _
  | .reference name [item] span => by
    rw [ofType]
    have hitem := (refused_ofType item).mono
      (List.subset_cons_of_subset span (spans_subset_first item []))
    exact .ite (.bind hitem fun _ => .ok _) (.ok _)
  | .reference name [key, value] span => by
    rw [ofType]
    have hkey := (refused_ofType key).mono
      (List.subset_cons_of_subset span (spans_subset_first key [value]))
    have hvalue := (refused_ofType value).mono (List.Subset.trans (spans_subset_first value [])
      (List.subset_cons_of_subset span (spans_subset_others key [value])))
    exact .ite (.bind hkey fun _ => .bind hvalue fun _ => .ok _) (.ok _)
  | .reference name (_ :: _ :: _ :: _) span => by
    -- no name is known that takes three arguments
    simp only [ofType]
    exact .ok _
  | .array inner _ => by
    rw [ofType]
    exact .bind ((refused_ofType inner).mono (List.subset_cons_self _ _)) fun _ => .ok _
  | .tuple parts _ | .union parts _ | .intersection parts _ => by
    rw [ofType]
    exact .bind ((refused_ofTypes parts).mono (List.subset_cons_self _ _)) fun _ => .ok _
  | .object members _ => by
    rw [ofType]
    exact .bind ((refused_fieldsOf members).mono (List.subset_cons_self _ _)) fun _ =>
      .ite ((refused_recordOf members).mono (List.subset_cons_self _ _)) (.ok _)
  | .paren inner _ => by
    rw [ofType]
    exact (refused_ofType inner).mono (List.subset_cons_self _ _)

/-- Types are refused for a part of one of them. -/
theorem refused_ofTypes : (types : List TypeExpr) → RefusedIn (typesSpans types) (ofTypes types)
  | [] => by
    rw [ofTypes]
    exact .ok _
  | type :: rest => by
    rw [ofTypes]
    exact .bind ((refused_ofType type).mono (spans_subset_first type rest)) fun _ =>
      .bind ((refused_ofTypes rest).mono (spans_subset_others type rest)) fun _ => .ok _

/-- Properties are refused for a part of one of them. -/
theorem refused_fieldsOf : (members : List Member) →
    RefusedIn (membersSpans members) (fieldsOf members)
  | [] => by
    rw [fieldsOf]
    exact .ok _
  | .property ⟨head, some type⟩ :: rest => by
    rw [fieldsOf]
    exact .bind ((refused_ofType type).mono (spans_subset_property head type rest)) fun _ =>
      .bind ((refused_fieldsOf rest).mono (List.subset_append_right _ _)) fun _ => .ok _
  | .property ⟨head, none⟩ :: rest => by
    rw [fieldsOf]
    exact .bind ((refused_fieldsOf rest).mono (List.subset_append_right _ _)) fun _ => .ok _
  | .index _ _ _ _ :: rest | .mapped _ :: rest | .other _ :: rest => by
    simp only [fieldsOf]
    exact (refused_fieldsOf rest).mono (List.subset_append_right _ _)

/-- A record is refused for a part of its index signature. -/
theorem refused_recordOf : (members : List Member) →
    RefusedIn (membersSpans members) (recordOf members)
  | [] => by
    rw [recordOf]
    exact .ok _
  | .index key value isReadonly span :: rest => by
    rw [recordOf]
    exact .bind ((refused_ofType key).mono (spans_subset_key key value isReadonly span rest))
      fun _ => .bind ((refused_ofType value).mono
        (spans_subset_value key value isReadonly span rest)) fun _ => .ok _
  | .property _ :: rest | .mapped _ :: rest | .other _ :: rest => by
    simp only [recordOf]
    exact (refused_recordOf rest).mono (List.subset_append_right _ _)

end

/-- A body is refused for a part of one of its members. -/
theorem refused_ofMembers (members : List Member) :
    RefusedIn (membersSpans members) (ofMembers members) := by
  rw [ofMembers]
  exact .bind (refused_fieldsOf members) fun _ => .ite (refused_recordOf members) (.ok _)

/-- An interface is refused for its type parameters or for one of its parts. -/
theorem refused_ofInterface (decl : InterfaceDecl) :
    RefusedIn (Item.interfaceItem decl).spans (ofInterface decl) := by
  rw [ofInterface]
  cases hparameters : decl.parameters with
  | some span => exact .error (by simp [Item.spans, hparameters, Unsupported.span])
  | none =>
    refine .bind ((refused_ofTypes decl.bases).mono (bases_subset_spans decl)) fun _ =>
      .bind ((refused_ofMembers decl.members).mono (members_subset_spans decl)) fun body => ?_
    cases body <;> exact .ok _

/-- An alias is refused for its type parameters or for a part of its type. -/
theorem refused_ofAlias (decl : AliasDecl) :
    RefusedIn (Item.aliasItem decl).spans (ofAlias decl) := by
  rw [ofAlias]
  cases hparameters : decl.parameters with
  | some span => exact .error (by simp [Item.spans, hparameters, Unsupported.span])
  | none => exact .bind ((refused_ofType decl.type).mono (type_subset_spans decl)) fun _ => .ok _

/-- Statements are refused for a part of one of them. -/
theorem refused_ofItems (items : List Item) :
    RefusedIn (items.flatMap Item.spans) (ofItems items) := by
  induction items with
  | nil => exact .ok _
  | cons item rest ih =>
    have hrest := ih.mono (List.subset_append_right item.spans _)
    rw [List.flatMap_cons]
    cases item with
    | interfaceItem decl =>
      exact .bind ((refused_ofInterface decl).mono (List.subset_append_left _ _)) fun _ =>
        .bind hrest fun _ => .ok _
    | aliasItem decl =>
      exact .bind ((refused_ofAlias decl).mono (List.subset_append_left _ _)) fun _ =>
        .bind hrest fun _ => .ok _
    | importItem span | otherItem span => exact hrest

end Schema

namespace TypeBox

mutual

/-- A type is not written for one of its parts. -/
theorem refused_writeType : (type : TypeExpr) → RefusedIn type.spans (writeType type)
  | .keyword _ _ | .literal _ _ => by
    rw [writeType]
    exact .ok _
  | .unsupported span => by
    rw [writeType]
    exact .error (List.mem_singleton_self span)
  | .reference name [] span => by
    rw [writeType]
    exact .ok _
  | .reference name [item] span => by
    rw [writeType]
    have hitem := (refused_writeType item).mono
      (List.subset_cons_of_subset span (spans_subset_first item []))
    exact .ite (.bind hitem fun _ => .ok _) (.ite (.bind hitem fun _ => .ok _) (.ok _))
  | .reference name (first :: second :: rest) span => by
    rw [writeType]
    have hfirst := (refused_writeType first).mono
      (List.subset_cons_of_subset span (spans_subset_first first (second :: rest)))
    have hbehind := List.subset_cons_of_subset span (spans_subset_others first (second :: rest))
    have hsecond := (refused_writeType second).mono
      (List.Subset.trans (spans_subset_first second rest) hbehind)
    have hothers := (refused_writeTypes rest).mono
      (List.Subset.trans (spans_subset_others second rest) hbehind)
    -- a record has its first two arguments written, a utility type all of them
    exact .ite (.bind hfirst fun _ => .bind hsecond fun _ => .ok _)
      (.ite (.bind hfirst fun _ => .bind hsecond fun _ => .bind hothers fun _ => .ok _) (.ok _))
  | .array inner _ => by
    rw [writeType]
    exact .bind ((refused_writeType inner).mono (List.subset_cons_self _ _)) fun _ => .ok _
  | .tuple parts _ | .union parts _ | .intersection parts _ => by
    rw [writeType]
    exact .bind ((refused_writeTypes parts).mono (List.subset_cons_self _ _)) fun _ => .ok _
  | .object members _ => by
    rw [writeType]
    exact .bind ((refused_writeProperties members).mono (List.subset_cons_self _ _)) fun _ =>
      .ite ((refused_writeRecord members).mono (List.subset_cons_self _ _)) (.ok _)
  | .paren inner _ => by
    rw [writeType]
    exact (refused_writeType inner).mono (List.subset_cons_self _ _)

/-- Types are not written for a part of one of them. -/
theorem refused_writeTypes : (types : List TypeExpr) →
    RefusedIn (typesSpans types) (writeTypes types)
  | [] => by
    rw [writeTypes]
    exact .ok _
  | type :: rest => by
    rw [writeTypes]
    exact .bind ((refused_writeType type).mono (spans_subset_first type rest)) fun _ =>
      .bind ((refused_writeTypes rest).mono (spans_subset_others type rest)) fun _ => .ok _

/-- Properties are not written for a part of one of them. -/
theorem refused_writeProperties : (members : List Member) →
    RefusedIn (membersSpans members) (writeProperties members)
  | [] => by
    rw [writeProperties]
    exact .ok _
  | .property ⟨head, some type⟩ :: rest => by
    rw [writeProperties]
    exact .bind ((refused_writeType type).mono (spans_subset_property head type rest)) fun _ =>
      .bind ((refused_writeProperties rest).mono (List.subset_append_right _ _)) fun _ => .ok _
  | .property ⟨head, none⟩ :: rest => by
    rw [writeProperties]
    exact .bind ((refused_writeProperties rest).mono (List.subset_append_right _ _)) fun _ => .ok _
  | .index _ _ _ _ :: rest | .mapped _ :: rest | .other _ :: rest => by
    simp only [writeProperties]
    exact (refused_writeProperties rest).mono (List.subset_append_right _ _)

/-- A record is not written for a part of its index signature. -/
theorem refused_writeRecord : (members : List Member) →
    RefusedIn (membersSpans members) (writeRecord members)
  | [] => by
    rw [writeRecord]
    exact .ok _
  | .index key value isReadonly span :: rest => by
    rw [writeRecord]
    exact .bind ((refused_writeType key).mono (spans_subset_key key value isReadonly span rest))
      fun _ => .bind ((refused_writeType value).mono
        (spans_subset_value key value isReadonly span rest)) fun _ => .ok _
  | .property _ :: rest | .mapped _ :: rest | .other _ :: rest => by
    simp only [writeRecord]
    exact (refused_writeRecord rest).mono (List.subset_append_right _ _)

end

/-- A body is not written for a part of one of its members. -/
theorem refused_writeBody (members : List Member) :
    RefusedIn (membersSpans members) (writeBody members) := by
  rw [writeBody]
  exact .bind (refused_writeProperties members) fun _ => .ite (refused_writeRecord members) (.ok _)

/-- An interface is not written for its type parameters or for one of its
parts. -/
theorem refused_writeInterface (decl : InterfaceDecl) :
    RefusedIn (Item.interfaceItem decl).spans (writeInterface decl) := by
  rw [writeInterface]
  cases hparameters : decl.parameters with
  | some span => exact .error (by simp [Item.spans, hparameters, Unsupported.span])
  | none =>
    exact .bind ((refused_writeBody decl.members).mono (members_subset_spans decl)) fun _ =>
      .ite (.ok _) (.bind ((refused_writeTypes decl.bases).mono (bases_subset_spans decl))
        fun _ => .ok _)

/-- An alias is not written for its type parameters or for a part of its type. -/
theorem refused_writeAlias (decl : AliasDecl) :
    RefusedIn (Item.aliasItem decl).spans (writeAlias decl) := by
  rw [writeAlias]
  cases hparameters : decl.parameters with
  | some span => exact .error (by simp [Item.spans, hparameters, Unsupported.span])
  | none => exact .bind ((refused_writeType decl.type).mono (type_subset_spans decl)) fun _ => .ok _

/-- Statements are not written for a part of one of them. -/
theorem refused_writeItems (items : List Item) :
    RefusedIn (items.flatMap Item.spans) (writeItems items) := by
  induction items with
  | nil => exact .ok _
  | cons item rest ih =>
    have hrest := ih.mono (List.subset_append_right item.spans _)
    rw [List.flatMap_cons]
    cases item with
    | interfaceItem decl =>
      exact .bind ((refused_writeInterface decl).mono (List.subset_append_left _ _)) fun _ =>
        .bind hrest fun _ => .ok _
    | aliasItem decl =>
      exact .bind ((refused_writeAlias decl).mono (List.subset_append_left _ _)) fun _ =>
        .bind hrest fun _ => .ok _
    | importItem span | otherItem span => exact hrest

end TypeBox

/-- What makes a file be refused stands at one of its spans. -/
theorem SourceFile.span_mem_spans {file : SourceFile} {unsupported : Unsupported}
    (h : Model.ofFile file = .error unsupported ∨ TypeBox.emit file = .error unsupported) :
    unsupported.span ∈ file.spans := by
  have hmodel : RefusedIn file.spans (Model.ofFile file) :=
    .bind (Schema.refused_ofItems file.items) fun _ => .ok _
  have hcode : RefusedIn file.spans (TypeBox.emit file) :=
    .bind (TypeBox.refused_writeItems file.items) fun _ => .ok _
  exact h.elim (hmodel unsupported) (hcode unsupported)

/-- The spans of a file that was read can be relied on. Each of them starts and
ends at a cut of the source, in this order. Statements stand one behind the other,
with their documentation, and so do their parts: members stand in their body and
behind each other, the name of a property before its type, its documentation
before it and behind the member before, and the parts of a type inside of it. All
spans of a statement lie inside of it. So no slice fails when the file is
flattened, or when a type that has no schema is shown. -/
theorem SourceFile.spans_sound {source : Text} {file : SourceFile}
    (hread : SourceFile.read source = some file) :
    (∀ span ∈ file.spans, span.start ≤ span.stop ∧ span.stop ≤ Text.byteLength source ∧
        Cut source span.start ∧ Cut source span.stop) ∧
      ItemsSound source 0 file.items ∧
      (file.items.Pairwise fun first second => first.span.stop ≤ second.span.start) ∧
      (∀ item ∈ file.items, ∀ span ∈ item.spans,
        item.span.start ≤ span.start ∧ span.stop ≤ item.span.stop) ∧
      Flatten.flattened? file = some file.flatten ∧
      ∀ unsupported, Model.ofFile file = .error unsupported ∨
          TypeBox.emit file = .error unsupported →
        unsupported.span ∈ file.spans ∧
          unsupported.subject? source = some (unsupported.subject source) := by
  obtain ⟨rfl, hitems⟩ := SourceFile.read_sound hread
  have hsound {span : Span} (hmem : span ∈ file.spans) : span.Sound file.text :=
    SourceFile.sound_of_mem_spans hitems hmem
  refine ⟨fun span hmem => ?_, hitems, hitems.pairwise, fun item hitem span hmem => ?_,
    Flatten.flattened?_eq hitems, fun unsupported hrefused => ?_⟩
  · have hspan := hsound hmem
    exact ⟨hspan.le, hspan.stop_cut.le, hspan.start_cut, hspan.stop_cut⟩
  · obtain ⟨before, -, hsound⟩ := hitems.of_mem hitem
    have hbetween := hsound.between span hmem
    exact ⟨hbetween.start_le, hbetween.le_stop⟩
  · have hmem := SourceFile.span_mem_spans hrefused
    exact ⟨hmem, Unsupported.subject?_eq (hsound hmem)⟩

/-- A documented interface with a nested object type, a type without a schema and
characters of more than one byte. -/
theorem SourceFile.spans_sound_documented :
    let source : Text :=
      "/** ä */ interface A \x7b /** é */ b: \x7b c: 'ü' \x7d; d: () => void \x7d"
    let text : Text :=
      "export interface A_properties_b \x7b\n    c: 'ü';\n\x7d\n\n" ++
      "/** ä */ interface A \x7b /** é */ b: A_properties_b; d: () => void \x7d"
    ∃ file unsupported, SourceFile.read source = some file ∧
      Flatten.flattened? file = some (.ok text) ∧
      Model.ofFile file = .error unsupported ∧
      unsupported.subject? source = some "type '() => void'".toList := by
  intro source text
  have hfacts : (SourceFile.read source).map (fun file => (file.flatten.toOption,
      match Model.ofFile file with
      | .ok _ => none
      | .error unsupported => some (unsupported.subject source))) =
        some (some text, some "type '() => void'".toList) := by
    decide +kernel
  obtain ⟨file, hread, hfile⟩ := Option.map_eq_some_iff.1 hfacts
  obtain ⟨hflatten, hsubject⟩ := Prod.mk.inj hfile
  obtain ⟨-, -, -, -, hflattened, hshown⟩ := SourceFile.spans_sound hread
  rw [eq_ok_of_toOption hflatten] at hflattened
  cases hmodel : Model.ofFile file with
  | ok model =>
    rw [hmodel] at hsubject
    cases hsubject
  | error unsupported =>
    rw [hmodel] at hsubject
    obtain ⟨-, hcut⟩ := hshown unsupported (.inl hmodel)
    rw [Option.some.inj hsubject] at hcut
    exact ⟨file, unsupported, hread, hflattened, hmodel, hcut⟩

end InterfaceSchema
