import InterfaceSchema.Proofs.Flatten.Preservation
import InterfaceSchema.Proofs.Flatten.Fresh

/-!
# No slice out of range

Cutting a text at any two positions gives some text, even if they lie behind its
end, inside of a character or in the wrong order. Here the renderers are written
once more with slices that fail for such positions. They fail for no file that
was read, because each span they cut out is one of the tree or lies between two
of them. Of drafts it has to be known where their properties come from, of the
layout that only places of interfaces are added to it.
-/

namespace InterfaceSchema

/-- Whether a text can be cut at the position: it has that many bytes, and no
character goes on there. -/
def Text.isBoundary : Nat → Text → Bool
  | 0, _ => true
  | _ + 1, [] => false
  | n + 1, c :: rest => c.utf8Size ≤ n + 1 && Text.isBoundary (n + 1 - c.utf8Size) rest

/-- The part of `text` that the span covers. There is none if the span ends
before it starts, or behind the text, or if the text cannot be cut at its ends. -/
def Span.slice? (span : Span) (text : Text) : Option Text :=
  if span.start ≤ span.stop ∧ Text.isBoundary span.start text = true ∧
      Text.isBoundary span.stop text = true then
    some (span.slice text)
  else none

/-- The boundaries of a text are its cuts. -/
theorem Text.isBoundary_iff {position : Nat} {text : Text} :
    Text.isBoundary position text = true ↔ Cut text position := by
  induction text generalizing position with
  | nil =>
    cases position with
    | zero => exact iff_of_true rfl (Cut.zero [])
    | succ n =>
      refine iff_of_false (by simp [Text.isBoundary]) fun hcut => ?_
      exact absurd hcut.le (Nat.not_succ_le_zero n)
  | cons c rest ih =>
    cases position with
    | zero => exact iff_of_true rfl (Cut.zero _)
    | succ n =>
      rw [Text.isBoundary, Bool.and_eq_true, decide_eq_true_iff, ih]
      constructor
      · rintro ⟨hle, before, after, rfl, hbefore⟩
        exact ⟨c :: before, after, rfl, by rw [Text.byteLength_cons]; omega⟩
      · rintro ⟨before, after, hsplit, hbefore⟩
        cases before with
        | nil => cases hbefore
        | cons d more =>
          obtain ⟨rfl, rfl⟩ := List.cons.inj hsplit
          rw [Text.byteLength_cons] at hbefore
          exact ⟨by omega, more, after, rfl, by omega⟩

/-- Exactly the sound spans can be cut out. -/
theorem Span.slice?_eq_some_iff {span : Span} {text part : Text} :
    span.slice? text = some part ↔ span.Sound text ∧ span.slice text = part := by
  have hboundary {position : Nat} := @Text.isBoundary_iff position text
  constructor
  · intro h
    rw [Span.slice?] at h
    split at h
    · next hsound =>
      obtain ⟨hle, hstart, hstop⟩ := hsound
      exact ⟨⟨hboundary.1 hstart, hboundary.1 hstop, hle⟩, Option.some.inj h⟩
    · cases h
  · rintro ⟨⟨hstart, hstop, hle⟩, rfl⟩
    rw [Span.slice?, if_pos ⟨hle, hboundary.2 hstart, hboundary.2 hstop⟩]

/-- A sound span is cut out. -/
theorem Span.Sound.slice? {span : Span} {text : Text} (h : span.Sound text) :
    span.slice? text = some (span.slice text) := Span.slice?_eq_some_iff.2 ⟨h, rfl⟩

namespace Flatten

section Renderers

variable (source : Text)

/-- The source from `cursor` to `stop` with the given parts replaced, if all
slices can be taken. -/
def replaceParts? (cursor stop : Nat) : List (Span × Text) → Option Text
  | [] => Span.slice? ⟨cursor, stop⟩ source
  | (span, text) :: rest => do
    let before ← Span.slice? ⟨cursor, span.start⟩ source
    let after ← replaceParts? span.stop stop rest
    some (before ++ (text ++ after))

/-- The line that declares a property of an extracted interface, if all slices
can be taken. -/
def propertyLine? (renamed : List (Span × Text)) (property : Property) : Option Text := do
  let modifier : Text := if property.head.readonly then "readonly " else ""
  let mark : Text := if property.head.optional then "?" else ""
  let type : Text ← match property.type with
    | none => some []
    | some type =>
      match renamed.lookup type.span with
      | some name => some (": " ++ name)
      | none => (type.span.slice? source).map fun text => ": " ++ text
  some (modifier ++ (property.head.name ++ (mark ++ (type ++ ";"))))

/-- The documentation and declaration of a property of an extracted interface,
if all slices can be taken. -/
def propertyLines? (renamed : List (Span × Text)) (property : Property) : Option (List Text) := do
  let docs ← match property.head.docs with
    | some span => (span.slice? source).map docLines
    | none => some []
  let line ← propertyLine? source renamed property
  some (docs ++ [line])

/-- An extracted interface, if all slices can be taken. -/
def renderExtracted? (draft : Draft) : Option Text := do
  let lines ← draft.properties.mapM (propertyLines? source draft.renamed)
  let opening : Text := "export interface " ++ (draft.name ++ " \x7b")
  let writer := Writer.new .extracted
  let written :=
    if draft.properties.isEmpty then writer.line (opening ++ "\x7d")
    else writer.within opening "\x7d" fun writer => writer.allLines lines.flatten
  some (written.text ++ "\n")

/-- The text of an interface in the flattened file, if all slices can be
taken. -/
def renderDraft? (draft : Draft) : Option Text :=
  match draft.origin with
  | some span => replaceParts? source span.start span.stop draft.renamed
  | none => renderExtracted? source draft

/-- The text of a place in the flattened file, if there is one and all slices
can be taken. -/
def renderSlot? (drafts : List Draft) : Slot → Option Text
  | .text span => span.slice? source
  | .interface index => drafts[index]?.bind (renderDraft? source)

/-- The text of the flattened file, if all slices can be taken. -/
def State.render? (state : State) : Option Text :=
  (state.layout.mapM (renderSlot? source state.drafts)).map List.flatten

end Renderers

/-- A property whose documentation and type can be cut out. -/
structure PropertySound (source : Text) (property : Property) : Prop where
  docs : ∀ span, property.head.docs = some span → span.Sound source
  type : ∀ type, property.type = some type → type.span.Sound source

/-- A draft that can be rendered: its properties can be cut out, and if it stands
in the source, so can the text between the types that are replaced in it. -/
structure Draft.Sound (source : Text) (draft : Draft) : Prop where
  properties : ∀ property ∈ draft.properties, PropertySound source property
  origin : ∀ span, draft.origin = some span → span.Sound source ∧
    InterfaceSchema.InOrder span.start span.stop (draft.renamed.map Prod.fst)
  renamed : ∀ span ∈ draft.renamed.map Prod.fst, span.Sound source

/-- A place that can be rendered: its text can be cut out, or it is that of one
of so many interfaces. -/
def Slot.Sound (source : Text) (count : Nat) : Slot → Prop
  | .text span => span.Sound source
  | .interface index => index < count

section Rendering

variable {source : Text}

/-- A list whose items give results gives all of them. -/
theorem mapM_eq_some {α β : Type} {f : α → Option β} {g : α → β} {items : List α}
    (h : ∀ item ∈ items, f item = some (g item)) : items.mapM f = some (items.map g) := by
  induction items with
  | nil => rfl
  | cons item rest ih =>
    rw [List.mapM_cons, h item List.mem_cons_self,
      ih fun other hother => h other (List.mem_cons_of_mem _ hother)]
    rfl

/-- Text between sound spans in order can be cut out. -/
theorem replaceParts?_eq {cursor stop : Nat} {renamed : List (Span × Text)}
    (hcursor : Cut source cursor) (hstop : Cut source stop)
    (horder : InOrder cursor stop (renamed.map Prod.fst))
    (hsound : ∀ span ∈ renamed.map Prod.fst, span.Sound source) :
    replaceParts? source cursor stop renamed =
      some (replaceParts source cursor stop renamed) := by
  induction renamed generalizing cursor with
  | nil => exact Span.Sound.slice? ⟨hcursor, hstop, horder⟩
  | cons part rest ih =>
    obtain ⟨span, name⟩ := part
    obtain ⟨hbefore, -, hbehind⟩ := horder
    have hspan : span.Sound source := hsound span List.mem_cons_self
    have hrest := ih hspan.stop_cut hbehind fun other hother =>
      hsound other (List.mem_cons_of_mem _ hother)
    have hfront : Span.Sound source ⟨cursor, span.start⟩ := ⟨hcursor, hspan.start_cut, hbefore⟩
    rw [replaceParts?, hfront.slice?, hrest]
    rfl

/-- The line of a sound property can be written. -/
theorem propertyLine?_eq {property : Property} (h : PropertySound source property)
    (renamed : List (Span × Text)) :
    propertyLine? source renamed property = some (propertyLine source renamed property) := by
  obtain ⟨head, type⟩ := property
  cases type with
  | none => rfl
  | some type =>
    have htype := (h.type type rfl).slice?
    rw [propertyLine?, propertyLine]
    dsimp only
    cases renamed.lookup type.span with
    | none =>
      dsimp only
      rw [htype]
      rfl
    | some name => rfl

/-- So can its documentation. -/
theorem propertyLines?_eq {property : Property} (h : PropertySound source property)
    (renamed : List (Span × Text)) :
    propertyLines? source renamed property = some (propertyLines source renamed property) := by
  rw [propertyLines?, propertyLine?_eq h, propertyLines]
  cases hdocs : property.head.docs with
  | none => rfl
  | some span =>
    dsimp only
    rw [(h.docs span hdocs).slice?]
    rfl

/-- A sound draft can be rendered. -/
theorem renderDraft?_eq {draft : Draft} (h : draft.Sound source) :
    renderDraft? source draft = some (renderDraft source draft) := by
  rw [renderDraft?, renderDraft]
  cases horigin : draft.origin with
  | some span =>
    obtain ⟨hspan, horder⟩ := h.origin span horigin
    exact replaceParts?_eq hspan.start_cut hspan.stop_cut horder h.renamed
  | none =>
    have hlines := mapM_eq_some (f := propertyLines? source draft.renamed) fun property hmem =>
      propertyLines?_eq (h.properties property hmem) draft.renamed
    rw [renderExtracted?, hlines, renderExtracted, List.flatMap_def]
    rfl

/-- A file of sound drafts can be rendered if its places are sound. -/
theorem State.render?_eq {state : State} (hdrafts : ∀ draft ∈ state.drafts, draft.Sound source)
    (hlayout : ∀ slot ∈ state.layout, slot.Sound source state.drafts.length) :
    state.render? source = some (state.render source) := by
  have hslot : ∀ slot ∈ state.layout,
      renderSlot? source state.drafts slot = some (renderSlot source state.drafts slot) := by
    intro slot hmem
    have hsound := hlayout slot hmem
    cases slot with
    | text span => exact Span.Sound.slice? hsound
    | interface index =>
      have hdraft : state.drafts[index]? = some state.drafts[index] :=
        List.getElem?_eq_getElem hsound
      rw [renderSlot?, renderSlot, hdraft]
      exact renderDraft?_eq (hdrafts _ (List.getElem_mem hsound))
  rw [State.render?, mapM_eq_some hslot, State.render, List.flatMap_def]
  rfl

end Rendering

section Drafts

variable {source : Text} {start stop : Nat}

/-- The properties of sound members are sound. -/
theorem propertySound_of_membersSound {members : List Member}
    (h : MembersSound source start stop members) {property : Property}
    (hmem : property ∈ propertiesOf members) : PropertySound source property := by
  have hmember : Member.property property ∈ members := mem_propertiesOf.1 hmem
  have hspans : ∀ span ∈ Member.spans (.property property), span.Sound source := fun span hspan =>
    (h.between members span (mem_membersSpans hmember hspan)).sound
  obtain ⟨head, type⟩ := property
  constructor
  · intro span hdocs
    have hhead : span ∈ head.spans := List.mem_append_left _ (Option.mem_toList.2 hdocs)
    cases type with
    | none => exact hspans span hhead
    | some type => exact hspans span (List.mem_append_left _ hhead)
  · rintro type rfl
    exact hspans type.span (List.mem_append_right _ type.span_mem_spans)

/-- What is known of a draft before it is worked off: its properties are those of
sound members, nothing is replaced in it, and if it stands in the source, its
object types stand in it in order. -/
structure Draft.Waiting (source : Text) (draft : Draft) : Prop where
  renamed : draft.renamed = []
  members : ∃ members start stop, draft.properties = propertiesOf members ∧
    MembersSound source start stop members
  origin : ∀ span, draft.origin = some span → span.Sound source ∧
    InterfaceSchema.InOrder span.start span.stop
      ((inlines draft.properties).map fun inline => inline.type.span)

/-- A draft that was worked off can be rendered. -/
theorem Draft.Waiting.emptied {draft : Draft} (h : draft.Waiting source) :
    draft.emptied.Sound source := by
  obtain ⟨members, start, stop, hproperties, hmembers⟩ := h.members
  have hrenamed : draft.emptied.renamed.map Prod.fst =
      (inlines draft.properties).map fun inline => inline.type.span := by
    simp [Draft.emptied, h.renamed, renamings]
  refine ⟨fun property hmem => ?_, fun span hspan => ?_, fun span hmem => ?_⟩
  · have hmem' : property ∈ propertiesOf members := hproperties ▸ hmem
    exact propertySound_of_membersSound hmembers hmem'
  · rw [hrenamed]
    exact h.origin span hspan
  · rw [hrenamed] at hmem
    obtain ⟨inline, hinline, rfl⟩ := List.mem_map.1 hmem
    obtain ⟨property, hproperty, htype, -⟩ := mem_inlines hinline
    rw [hproperties] at hproperty
    exact (propertySound_of_membersSound hmembers hproperty).type _ htype

/-- So can those extracted from it, once they are worked off. -/
theorem Draft.Waiting.fresh {draft : Draft} (h : draft.Waiting source) {inline : Inline}
    (hmem : inline ∈ inlines draft.properties) : (Draft.fresh draft.name inline).Waiting source := by
  obtain ⟨members, start, stop, hproperties, hmembers⟩ := h.members
  obtain ⟨property, hproperty, hinline⟩ := List.mem_filterMap.1 hmem
  obtain ⟨span, hobject, rfl⟩ := Inline.eq_of_ofProperty? hinline
  rw [hproperties] at hproperty
  obtain ⟨-, hsound⟩ := type_of_membersSound hmembers hproperty rfl
  rw [hobject] at hsound
  obtain ⟨-, -, hbelow⟩ := hsound
  refine ⟨rfl, ⟨inline.members, span.start, span.stop, rfl, hbelow⟩, fun origin horigin => ?_⟩
  cases horigin

/-- A declared interface is waiting at first. -/
theorem waiting_ofDecl {decl : InterfaceDecl} (h : decl.Sound source start) :
    (Draft.ofDecl decl).Waiting source := by
  obtain ⟨first, second, -, -, hmembers⟩ := h.parts
  refine ⟨rfl, ⟨decl.members, second, decl.span.stop, rfl, hmembers⟩, fun span hspan => ?_⟩
  obtain rfl : decl.span = span := Option.some.inj hspan
  exact ⟨h.span, inOrder_of_sound h⟩

end Drafts

section Layouts

variable {source : Text}

/-- All places of a state are sound. -/
def State.LayoutSound (source : Text) (state : State) : Prop :=
  ∀ slot ∈ state.layout, slot.Sound source state.drafts.length

/-- A sound place stays so when there are more interfaces. -/
theorem Slot.Sound.mono {slot : Slot} {count more : Nat} (hle : count ≤ more)
    (h : slot.Sound source count) : slot.Sound source more := by
  cases slot with
  | text span => exact h
  | interface index => exact Nat.lt_of_lt_of_le h hle

/-- Nothing but the new slot is put into a layout. -/
theorem mem_insertBefore {anchor slot other : Slot} {layout : List Slot}
    (h : other ∈ insertBefore anchor slot layout) : other = slot ∨ other ∈ layout := by
  induction layout with
  | nil => exact .inl (List.mem_singleton.1 h)
  | cons head rest ih =>
    rw [insertBefore] at h
    split at h
    · exact (List.mem_cons.1 h)
    · rcases List.mem_cons.1 h with rfl | h
      · exact .inr List.mem_cons_self
      · exact (ih h).imp id (List.mem_cons_of_mem _)

/-- Extracting an interface adds a place for it. -/
theorem State.LayoutSound.extract {state after : State} (h : state.LayoutSound source)
    {parent : Nat} {parentName : Text} {inline : Inline}
    (hafter : state.extract parent parentName inline = .ok after) : after.LayoutSound source := by
  rw [State.extract] at hafter
  split at hafter
  · cases hafter
  cases hafter
  intro slot hmem
  rw [List.length_append, List.length_modify, List.length_singleton]
  rcases mem_insertBefore hmem with rfl | hmem
  · exact Nat.lt_succ_self _
  · exact (h slot hmem).mono (Nat.le_succ _)

/-- At the start, all places are sound. -/
theorem sound_layoutFrom {decls : List InterfaceDecl} {cursor stop index count : Nat}
    (hcursor : Cut source cursor) (hstop : Cut source stop)
    (hdecls : ∀ decl ∈ decls, decl.span.Sound source) (hcount : index + decls.length ≤ count) :
    ∀ slot ∈ layoutFrom stop cursor index decls, slot.Sound source count := by
  induction decls generalizing cursor index with
  | nil =>
    rw [layoutFrom]
    split
    · next hlt =>
      intro slot hmem
      obtain rfl := List.mem_singleton.1 hmem
      exact ⟨hcursor, hstop, Nat.le_of_lt hlt⟩
    · exact fun slot hmem => absurd hmem List.not_mem_nil
  | cons decl rest ih =>
    have hdecl := hdecls decl List.mem_cons_self
    rw [List.length_cons] at hcount
    have hrest := @ih decl.span.stop (index + 1) hdecl.stop_cut
      (fun other hother => hdecls other (List.mem_cons_of_mem _ hother)) (by omega)
    have hslots : ∀ slot ∈ Slot.interface index :: layoutFrom stop decl.span.stop (index + 1) rest,
        slot.Sound source count := by
      intro slot hmem
      rcases List.mem_cons.1 hmem with rfl | hmem
      · exact Nat.lt_of_lt_of_le (by omega) hcount
      · exact hrest slot hmem
    rw [layoutFrom]
    split
    · next hlt =>
      intro slot hmem
      rcases List.mem_cons.1 hmem with rfl | hmem
      · exact ⟨hcursor, hdecl.start_cut, Nat.le_of_lt hlt⟩
      · exact hslots slot hmem
    · exact hslots

end Layouts

/-- Flattening with slices that can fail. -/
def flattened? (file : SourceFile) : Option (Except NameCollision Text) :=
  match (State.ofFile file).flattenFrom 0 (totalWeight file) with
  | .error collision => some (.error collision)
  | .ok state => (state.render? file.text).map .ok

/-- No slice fails when a file is flattened that was read. -/
theorem flattened?_eq {file : SourceFile} (h : ItemsSound file.text 0 file.items) :
    flattened? file = some file.flatten := by
  rw [flattened?, SourceFile.flatten]
  cases hrun : (State.ofFile file).flattenFrom 0 (totalWeight file) with
  | error collision => rfl
  | ok state =>
    have hdecls {decl : InterfaceDecl} (hmem : decl ∈ file.interfaces) :
        ∃ behind, InterfaceDecl.Sound file.text behind decl := sound_of_itemsSound h hmem
    have hcomplete := complete_ofFile file
    have hdrafts : ∀ draft ∈ state.drafts, draft.Sound file.text := by
      have hwork (draft : Draft) (hwaiting : draft.Waiting file.text) :
          draft.emptied.Sound file.text ∧
            ∀ inline ∈ inlines draft.properties,
              (Draft.fresh draft.name inline).Waiting file.text :=
        ⟨hwaiting.emptied, fun inline hmem => hwaiting.fresh hmem⟩
      refine flattenFrom_forall hwork _ (workload_ofDecl file) hcomplete ?_ (by simp) hrun
      intro draft hdraft
      obtain ⟨decl, hdecl, rfl⟩ := List.mem_map.1 hdraft
      obtain ⟨behind, hsound⟩ := hdecls hdecl
      exact waiting_ofDecl hsound
    -- extracting only adds places of interfaces, the text between them stays
    have hlayout : state.LayoutSound file.text := by
      refine flattenFrom_preserves (fun hbefore hnext => hbefore.extract hnext) ?_ hrun
      refine sound_layoutFrom (Cut.zero _) (Cut.whole _) (fun decl hdecl => ?_)
        (by simp [State.ofFile])
      obtain ⟨behind, hsound⟩ := hdecls hdecl
      exact hsound.span
    dsimp only
    rw [State.render?_eq hdrafts hlayout]
    rfl

end Flatten

end InterfaceSchema
