import InterfaceSchema.Proofs.Flatten.MadeNames
import InterfaceSchema.Proofs.Flatten.Scoping
import InterfaceSchema.Proofs.Syntax.Openings

/-!
# Flattening again

A source stays as it is when it is flattened exactly if no property in it has an object
type in place: in front of the first interface with one an extracted interface would be
printed, under a longer name, where the source declares the interface itself. The
interfaces that flattening prints have no such properties. So a flattened file that is
read as it was meant stays as it is when it is flattened again.
-/

namespace InterfaceSchema.Flatten

section Fixed

variable {source parent : Text} {members others : List Member} {cursor : Nat}

/-- An interface that comes out of members is named after the one around them. -/
theorem prefix_name_of_hoisted {hoisted : Hoisted} (h : hoisted ∈ hoistMembers parent members) :
    parent ++ Naming.separator <+: hoisted.name := by
  have hextracted (key : Text) : parent ++ Naming.separator <+: Naming.extracted parent key :=
    ⟨key, List.append_assoc _ _ _⟩
  induction members using body_induction generalizing parent with
  | step members ih =>
    rw [hoistMembers_eq] at h
    obtain ⟨inline, hinline, h⟩ := List.mem_flatMap.1 h
    rcases List.mem_append.1 h with h | h
    · have hnested := ih inline hinline h fun key => ⟨key, List.append_assoc _ _ _⟩
      exact (hextracted _).trans ((List.prefix_append _ _).trans hnested)
    · obtain rfl := List.mem_singleton.1 h
      exact hextracted _

/-- An interface with an object type in place is printed behind one with a longer name. -/
theorem longer_prefix_printInterface {decl : InterfaceDecl}
    (h : inlines (propertiesOf decl.members) ≠ []) :
    ("export interface " ++ (decl.name ++ Naming.separator) : Text) <+:
      printInterface source decl := by
  obtain ⟨hoisted, rest, hlist⟩ :=
    List.exists_cons_of_ne_nil fun hnil => h (hoistMembers_eq_nil_iff.1 hnil)
  have hname : decl.name ++ Naming.separator <+: hoisted.name :=
    prefix_name_of_hoisted (hlist ▸ List.mem_cons_self)
  have hheader := header_prefix_print source hoisted
  rw [List.append_assoc] at hheader
  have hlonger : ("export interface " ++ (decl.name ++ Naming.separator) : Text) <+:
      hoisted.print source :=
    ((List.prefix_append_right_inj _).2 (hname.trans (List.prefix_append _ _))).trans hheader
  rw [printInterface, hlist, List.flatMap_cons, List.append_assoc]
  exact hlonger.trans (List.prefix_append _ _)

/-- An interface without an object type in place is printed as it stands. -/
theorem printInterface_eq_slice {decl : InterfaceDecl}
    (h : inlines (propertiesOf decl.members) = []) :
    printInterface source decl = decl.span.slice source := by
  rw [printInterface, hoistMembers_eq_nil_iff.2 h, h]
  rfl

/-- A text that the source goes on with stands there. -/
theorem stands_of_slice {text more : Text} (hcut : Cut source cursor)
    (h : text ++ more = Span.slice ⟨cursor, Text.byteLength source⟩ source) :
    Stands source text cursor := by
  obtain ⟨before, after, rfl, rfl⟩ := hcut
  have hslice := Span.slice_append before after []
  rw [List.append_nil, ← Text.byteLength_append, ← h] at hslice
  exact ⟨before, more, by rw [hslice], rfl⟩

/-- If a source is printed as it stands, then no interface has an object type in place, or
one of them starts where the exported declaration of a longer name stands. -/
theorem exists_longer_of_printFrom {decls : List InterfaceDecl}
    (horder : InOrder cursor (Text.byteLength source) (decls.map InterfaceDecl.span))
    (hspans : ∀ decl ∈ decls, decl.span.Sound source) (hcursor : Cut source cursor)
    (h : printFrom source cursor decls = Span.slice ⟨cursor, Text.byteLength source⟩ source) :
    (∀ decl ∈ decls, inlines (propertiesOf decl.members) = []) ∨
      ∃ decl ∈ decls,
        Stands source ("export interface " ++ (decl.name ++ Naming.separator)) decl.span.start := by
  induction decls generalizing cursor with
  | nil => exact .inl (List.forall_mem_nil _)
  | cons decl rest ih =>
    obtain ⟨hstart, hle, hrest⟩ := horder
    obtain ⟨hspan, hothers⟩ := List.forall_mem_cons.1 hspans
    have hstop := hspan.stop_cut.le
    have hsplit : Span.slice ⟨cursor, decl.span.start⟩ source ++
        Span.slice ⟨decl.span.start, Text.byteLength source⟩ source =
          Span.slice ⟨cursor, Text.byteLength source⟩ source :=
      Span.slice_append_slice hcursor hspan.start_cut hstart (Nat.le_trans hle hstop)
    -- the text in front of the interface is the same
    rw [printFrom, ← hsplit] at h
    have hhere := List.append_cancel_left h
    by_cases hplain : inlines (propertiesOf decl.members) = []
    · rw [printInterface_eq_slice hplain,
        ← Span.slice_append_slice hspan.start_cut hspan.stop_cut hle hstop] at hhere
      rcases ih hrest hothers hspan.stop_cut (List.append_cancel_left hhere) with
        hall | ⟨other, hmem, hstands⟩
      · exact .inl (List.forall_mem_cons.2 ⟨hplain, hall⟩)
      · exact .inr ⟨other, List.mem_cons_of_mem _ hmem, hstands⟩
    · obtain ⟨more, hmore⟩ : ("export interface " ++ (decl.name ++ Naming.separator) : Text) <+:
          printInterface source decl := longer_prefix_printInterface hplain
      rw [← hmore, List.append_assoc] at hhere
      exact .inr ⟨decl, List.mem_cons_self, stands_of_slice hspan.start_cut hhere⟩

/-- A source stays as it is exactly if no property has an object type in place. -/
theorem flatten_eq_self_iff {file : SourceFile} (hread : SourceFile.read source = some file) :
    flatten source = .ok source ↔
      ∀ decl ∈ file.interfaces, inlines (propertiesOf decl.members) = [] := by
  refine ⟨fun h => ?_, (flatten_preserves hread).2.2⟩
  obtain ⟨htext, hitems⟩ := SourceFile.read_sound hread
  have hprint := eq_printFrom_of_flatten hread h
  have hspans : ∀ decl ∈ file.interfaces, decl.span.Sound source := fun decl hdecl =>
    (sound_of_itemsSound hitems hdecl).choose_spec.span
  rcases exists_longer_of_printFrom (declsInOrder_of_itemsSound hitems (Nat.zero_le _)).1 hspans
    (Cut.zero source) (hprint.symm.trans (Span.slice_whole source).symm) with
    hplain | ⟨decl, hdecl, hstands⟩
  · exact hplain
  · exact absurd hstands (SourceFile.not_stands_longer hread hdecl (by decide))

end Fixed

section Meant

variable {source text : Text} {file : SourceFile} {members others : List Member}

/-- A property with a reference in place of its object type has none. -/
theorem ofProperty?_retyped (parent : Text) (property : Property) :
    Inline.ofProperty? (property.retyped parent) = none := by
  obtain ⟨head, _ | type⟩ := property
  · rfl
  · cases type <;> rfl

/-- Retyped properties have no object types in place. -/
theorem inlines_map_retyped (parent : Text) (properties : List Property) :
    inlines (properties.map (Property.retyped parent)) = [] := by
  rw [inlines, List.filterMap_eq_nil_iff, List.forall_mem_map]
  exact fun property _ => ofProperty?_retyped parent property

/-- The interfaces that flattening makes of a statement have no object types in place. -/
theorem plain_hoistItem {item : Item} {decl : InterfaceDecl}
    (h : .interfaceItem decl ∈ hoistItem item) : inlines (propertiesOf decl.members) = [] := by
  cases item with
  | interfaceItem found =>
    rcases List.mem_append.1 h with h | h
    · obtain ⟨hoisted, -, heq⟩ := List.mem_map.1 h
      cases heq
      have hmembers : hoisted.decl.members =
          (hoisted.properties.map (Property.retyped hoisted.name)).map .property := by
        rw [List.map_map]
        rfl
      rw [hmembers, propertiesOf_map_property, inlines_map_retyped]
    · cases List.mem_singleton.1 h
      rw [InterfaceDecl.mapProperties, propertiesOf_mapProperty, inlines_map_retyped]
  | aliasItem | importItem | otherItem => cases List.mem_singleton.1 h

/-- A property that is alike to one without an object type in place has none. -/
theorem ofProperty?_alike {property other : Property} (h : property.alike other = true)
    (hnone : Inline.ofProperty? property = none) : Inline.ofProperty? other = none := by
  obtain ⟨head, first⟩ := property
  obtain ⟨name, second⟩ := other
  obtain ⟨-, htype⟩ := Bool.and_eq_true_iff.1 h
  cases first with
  | none =>
    cases second with
    | none => rfl
    | some type => cases htype
  | some first =>
    cases second with
    | none => rfl
    | some second =>
      cases second with
      | object members span =>
        cases first with
        | object => cases hnone
        | _ => cases htype
      | _ => rfl

/-- Members that are alike to ones without object types in place have none. -/
theorem inlines_alike (h : Member.allAlike members others = true)
    (hnone : inlines (propertiesOf members) = []) : inlines (propertiesOf others) = [] := by
  rw [inlines, propertiesOf, List.filterMap_filterMap, List.filterMap_eq_nil_iff] at hnone ⊢
  replace h := Member.allAlike_iff.1 h
  induction h with
  | nil => exact List.forall_mem_nil _
  | @cons member other _ _ hfirst _ ih =>
    obtain ⟨hmember, hmembers⟩ := List.forall_mem_cons.1 hnone
    refine List.forall_mem_cons.2 ⟨?_, ih hmembers⟩
    cases other with
    | property found =>
      cases member with
      | property => exact ofProperty?_alike hfirst hmember
      | _ => cases hfirst
    | _ => rfl

/-- Interfaces in statements that are alike to ones without object types in place have
none. -/
theorem plain_alike {items found : List Item} (h : Item.allAlike items found = true)
    (hplain : ∀ decl, .interfaceItem decl ∈ items → inlines (propertiesOf decl.members) = []) :
    ∀ decl, .interfaceItem decl ∈ found → inlines (propertiesOf decl.members) = [] := by
  replace h := Item.allAlike_iff.1 h
  induction h with
  | nil => exact fun _ h => nomatch h
  | @cons item other _ _ hfirst _ ih =>
    intro decl hdecl
    rcases List.mem_cons.1 hdecl with rfl | hdecl
    · cases item with
      | interfaceItem first =>
        obtain ⟨-, hparts⟩ := Bool.and_eq_true_iff.1 hfirst
        exact inlines_alike (Bool.and_eq_true_iff.1 hparts).2 (hplain first List.mem_cons_self)
      | _ => cases hfirst
    · exact ih (fun decl hmem => hplain decl (List.mem_cons_of_mem _ hmem)) decl hdecl

/-- The interfaces in a flattened text that is read as it was meant have no object types
in place. -/
theorem plain_of_readAsHoisted (h : ReadAsHoisted file text) {again : SourceFile}
    (hagain : SourceFile.read text = some again) :
    ∀ decl ∈ again.interfaces, inlines (propertiesOf decl.members) = [] := by
  obtain ⟨found, hfound, halike⟩ := h
  obtain rfl : again = found := Option.some.inj (hagain.symm.trans hfound)
  intro decl hdecl
  obtain ⟨item, hitem, hinterface⟩ := List.mem_filterMap.1 hdecl
  cases item with
  | interfaceItem =>
    cases hinterface
    refine plain_alike halike (fun decl hmem => ?_) decl hitem
    obtain ⟨item, -, hmem⟩ := List.mem_flatMap.1 hmem
    exact plain_hoistItem hmem
  | _ => cases hinterface

end Meant

end InterfaceSchema.Flatten
