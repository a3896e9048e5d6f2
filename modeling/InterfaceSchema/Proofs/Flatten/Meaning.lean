import InterfaceSchema.Proofs.Dialect.Declaring
import InterfaceSchema.Proofs.Flatten.Inlining
import Mathlib.Data.List.Induction

/-!
# What a flattened file means

An extracted interface copies the properties of an object type and nothing else. So it
means what the object type means, unless that stands for a record: then it holds one
index signature and no property. With the extracted interfaces inlined, a flattened file
means what its source means exactly if no such object type was extracted.
-/

namespace InterfaceSchema

open TypeBox (isRecord bind_eq_ok)

mutual

/-- The type as extracting copies it: an object type with its properties alone. -/
def TypeExpr.narrowed : TypeExpr → TypeExpr
  | .object members span => .object (Member.allNarrowed members) span
  | type => type

/-- The properties among the members, as extracting copies them. -/
def Member.allNarrowed : List Member → List Member
  | [] => []
  | .property ⟨head, some type⟩ :: rest =>
    .property ⟨head, some (TypeExpr.narrowed type)⟩ :: Member.allNarrowed rest
  | .property ⟨head, none⟩ :: rest => .property ⟨head, none⟩ :: Member.allNarrowed rest
  | _ :: rest => Member.allNarrowed rest

end

/-- The property as extracting copies it. -/
def Property.narrowed (property : Property) : Property :=
  ⟨property.head, property.type.map TypeExpr.narrowed⟩

mutual

/-- Whether an object type, or one in place of the type of a property in it, stands for
a record. -/
def TypeExpr.holdsRecord : TypeExpr → Bool
  | .object members _ => isRecord members || Member.anyRecord members
  | _ => false

/-- Whether an object type in place of a property's type, at any depth, stands for a
record. -/
def Member.anyRecord : List Member → Bool
  | [] => false
  | .property ⟨_, some type⟩ :: rest => TypeExpr.holdsRecord type || Member.anyRecord rest
  | _ :: rest => Member.anyRecord rest

end

namespace Flatten

open Schema

variable {members : List Member} {property : Property} {fields : List Field} {made : List Text}
  {known : Known} {hoisted : Hoisted}

/-- The object types of properties are that of the first one and those of the
others. -/
theorem forall_inlines_cons {P : Inline → Prop} {rest : List Property} :
    (∀ inline ∈ inlines (property :: rest), P inline) ↔
      (∀ inline, Inline.ofProperty? property = some inline → P inline) ∧
        ∀ inline ∈ inlines rest, P inline := by
  rw [inlines, List.filterMap_cons]
  cases Inline.ofProperty? property with
  | none => simp [inlines]
  | some inline => simp [inlines]

/-- Where no object type stands for a record. -/
theorem anyRecord_eq_false_iff : Member.anyRecord members = false ↔
    ∀ inline ∈ inlines (propertiesOf members),
      isRecord inline.members = false ∧ Member.anyRecord inline.members = false := by
  induction members with
  | nil => exact iff_of_true rfl fun _ h => nomatch h
  | cons member rest ih =>
    rcases member with ⟨head, _ | type⟩ | _ | _ | _
    case property.some =>
      have hproperties : propertiesOf (.property ⟨head, some type⟩ :: rest) =
          ⟨head, some type⟩ :: propertiesOf rest := rfl
      rw [hproperties, forall_inlines_cons, ← ih, Member.anyRecord, Bool.or_eq_false_iff]
      refine and_congr_left' ?_
      cases type with
      | object members span =>
        simp [TypeExpr.holdsRecord, Inline.ofProperty?_object]
      | _ => exact iff_of_true rfl fun _ h => nomatch h
    all_goals exact ih

section Narrowing

/-- The properties of narrowed members. -/
theorem propertiesOf_allNarrowed (members : List Member) :
    propertiesOf (Member.allNarrowed members) = (propertiesOf members).map Property.narrowed := by
  induction members with
  | nil => rfl
  | cons member rest ih =>
    rcases member with ⟨head, _ | type⟩ | _ | _ | _
    · exact congrArg (List.cons _) ih
    · exact congrArg (List.cons _) ih
    all_goals exact ih

/-- No index signature is left among narrowed members. -/
theorem isRecord_allNarrowed (members : List Member) :
    isRecord (Member.allNarrowed members) = false := by
  have hcount : (Member.allNarrowed members).countP isIndex = 0 := by
    induction members with
    | nil => rfl
    | cons member rest ih =>
      rcases member with ⟨head, _ | type⟩ | _ | _ | _
      · exact (List.countP_cons_of_neg Bool.false_ne_true).trans ih
      · exact (List.countP_cons_of_neg Bool.false_ne_true).trans ih
      all_goals exact ih
  rw [isRecord, hcount, Bool.and_eq_false_iff]
  exact .inr rfl

/-- A property without an object type is copied as it is. -/
theorem narrowed_of_none (h : Inline.ofProperty? property = none) :
    property.narrowed = property := by
  obtain ⟨head, _ | type⟩ := property
  · rfl
  · cases type with
    | object members span => cases h
    | _ => rfl

/-- The field of a narrowed property is the same exactly if no record was lost. -/
theorem exists_narrowed_field {field : Field} (hfield : fieldOf property = .ok field)
    (hinside : ∀ inline, Inline.ofProperty? property = some inline →
      ∀ fields, FieldsFor (propertiesOf inline.members) fields →
        ∃ copies, FieldsFor ((propertiesOf inline.members).map Property.narrowed) copies ∧
          (copies = fields ↔ Member.anyRecord inline.members = false)) :
    ∃ copy, fieldOf property.narrowed = .ok copy ∧
      (copy = field ↔ ∀ inline, Inline.ofProperty? property = some inline →
        isRecord inline.members = false ∧ Member.anyRecord inline.members = false) := by
  cases hinline : Inline.ofProperty? property with
  | none =>
    rw [narrowed_of_none hinline]
    exact ⟨field, hfield, iff_of_true rfl fun _ h => nomatch h⟩
  | some inline =>
    obtain ⟨span, hobject, rfl⟩ := Inline.eq_of_ofProperty? hinline
    rw [hobject] at hfield ⊢
    obtain ⟨schema, hschema, hfield⟩ := bind_eq_ok.1 hfield
    cases hfield
    obtain ⟨fields, hfields, hcases⟩ := exists_fields_of_members hschema
    obtain ⟨copies, hcopies, heq⟩ := hinside inline hinline fields hfields
    rw [← propertiesOf_allNarrowed] at hcopies
    refine ⟨⟨inline.head.key, .object copies, inline.head.optional, inline.head.readonly⟩,
      bind_eq_ok.2 ⟨.object copies, ofMembers_eq (isRecord_allNarrowed _) hcopies, rfl⟩, ?_⟩
    rcases hcases with ⟨hrecord, rfl⟩ | ⟨hrecord, -, key, value, rfl⟩
    · simp [heq, hrecord]
    · simp [hrecord]

/-- The fields of narrowed properties are the same exactly if no record was lost from
any of them. -/
theorem exists_narrowed_list {properties : List Property} (hfields : FieldsFor properties fields)
    (hinside : ∀ inline ∈ inlines properties,
      ∀ fields, FieldsFor (propertiesOf inline.members) fields →
        ∃ copies, FieldsFor ((propertiesOf inline.members).map Property.narrowed) copies ∧
          (copies = fields ↔ Member.anyRecord inline.members = false)) :
    ∃ copies, FieldsFor (properties.map Property.narrowed) copies ∧
      (copies = fields ↔ ∀ inline ∈ inlines properties,
        isRecord inline.members = false ∧ Member.anyRecord inline.members = false) := by
  induction hfields with
  | nil => exact ⟨[], .nil, iff_of_true rfl fun _ h => nomatch h⟩
  | @cons property field rest others hfield hrest ih =>
    obtain ⟨hfirst, hothers⟩ := forall_inlines_cons.1 hinside
    obtain ⟨copy, hcopy, heq⟩ := exists_narrowed_field hfield hfirst
    obtain ⟨copies, hcopies, heqs⟩ := ih hothers
    refine ⟨copy :: copies, .cons hcopy hcopies, ?_⟩
    rw [List.cons_eq_cons, heq, heqs, forall_inlines_cons]

/-- The fields of a body's narrowed properties are the same exactly if it holds no
record. -/
theorem exists_narrowed_fields (hfields : FieldsFor (propertiesOf members) fields) :
    ∃ copies, FieldsFor ((propertiesOf members).map Property.narrowed) copies ∧
      (copies = fields ↔ Member.anyRecord members = false) := by
  induction members using body_induction generalizing fields with
  | step members ih =>
    rw [anyRecord_eq_false_iff]
    exact exists_narrowed_list hfields fun inline hinline _ => ih inline hinline

end Narrowing

section Retyping

variable {parent : Text}

/-- What is known of an extracted interface: its fields are those of its narrowed
properties. -/
def Recalls (known : Known) (hoisted : Hoisted) : Prop :=
  ∃ copies, FieldsFor (hoisted.properties.map Property.narrowed) copies ∧
    known.lookup hoisted.name = some (.object copies)

/-- What is known of the interfaces that the object types in properties of the interface
`parent` become. -/
def Knows (known : Known) (parent : Text) (properties : List Property) : Prop :=
  ∀ inline ∈ inlines properties,
    Recalls known ⟨Naming.extracted parent inline.head.key, propertiesOf inline.members⟩

/-- A made-up name is no name of the language. -/
theorem extracted_ne_date (parent key : Text) : Naming.extracted parent key ≠ "Date" := by
  intro h
  have hmem : '_' ∈ Naming.extracted parent key :=
    List.mem_append_right _ (List.mem_append_left _ (by decide))
  rw [h] at hmem
  exact absurd hmem (by decide)

/-- Fields are the only ones for properties. -/
theorem FieldsFor.unique {properties : List Property} {others : List Field}
    (h : FieldsFor properties fields) (hothers : FieldsFor properties others) :
    fields = others := by
  induction h generalizing others with
  | nil => exact (List.forall₂_nil_left_iff.1 hothers).symm
  | cons hfirst _ ih =>
    obtain ⟨other, more, hother, hmore, rfl⟩ := List.forall₂_cons_left_iff.1 hothers
    rw [Except.ok.inj (hfirst.symm.trans hother), ih hmore]

/-- A property without an object type is not retyped. -/
theorem retyped_of_none (h : Inline.ofProperty? property = none) :
    property.retyped parent = property := by
  obtain ⟨head, _ | type⟩ := property
  · rfl
  · cases type with
    | object members span => cases h
    | _ => rfl

/-- A retyped property means what the narrowed one does, once what is known is
inlined. -/
theorem exists_retyped_field {field copy : Field} (hfield : fieldOf property = .ok field)
    (hrefs : ∀ name ∈ field.type.references, known.lookup name = none)
    (hcopy : fieldOf property.narrowed = .ok copy)
    (hknows : ∀ inline, Inline.ofProperty? property = some inline →
      Recalls known ⟨Naming.extracted parent inline.head.key, propertiesOf inline.members⟩) :
    ∃ flat, fieldOf (property.retyped parent) = .ok flat ∧
      ∀ rest, Field.inlineAll known (flat :: rest) = copy :: Field.inlineAll known rest := by
  cases hinline : Inline.ofProperty? property with
  | none =>
    rw [narrowed_of_none hinline] at hcopy
    obtain rfl : copy = field := Except.ok.inj (hcopy.symm.trans hfield)
    rw [retyped_of_none hinline]
    refine ⟨copy, hfield, fun rest => ?_⟩
    obtain ⟨name, type, optional, readonly⟩ := copy
    rw [Field.inlineAll, SchemaType.inline_eq_self type hrefs]
  | some inline =>
    obtain ⟨copies, hcopies, hlookup⟩ := hknows inline hinline
    obtain ⟨span, hobject, rfl⟩ := Inline.eq_of_ofProperty? hinline
    have hnarrowed : copy =
        ⟨inline.head.key, .object copies, inline.head.optional, inline.head.readonly⟩ := by
      rw [← propertiesOf_allNarrowed] at hcopies
      rw [hobject] at hcopy
      refine Except.ok.inj (hcopy.symm.trans ?_)
      exact bind_eq_ok.2
        ⟨.object copies, ofMembers_eq (isRecord_allNarrowed _) hcopies, rfl⟩
    have hretyped : Property.retyped parent ⟨inline.head, some inline.type⟩ = ⟨inline.head,
        some (.reference (Naming.extracted parent inline.head.key) [] .nowhere)⟩ := by
      rw [hobject]
      rfl
    have hname : ofType (.reference (Naming.extracted parent inline.head.key) [] .nowhere) =
        .ok (.reference (Naming.extracted parent inline.head.key)) := by
      rw [ofType, if_neg (extracted_ne_date _ _)]
    rw [hretyped]
    refine ⟨_, bind_eq_ok.2 ⟨_, hname, rfl⟩, fun rest => ?_⟩
    rw [Field.inlineAll, SchemaType.inline, hlookup, hnarrowed]
    rfl

/-- Retyped properties mean what the narrowed ones do, once what is known of the
interfaces that come out of them is inlined. -/
theorem exists_retyped_fields {properties : List Property} {copies : List Field}
    (hfields : FieldsFor properties fields)
    (hrefs : ∀ name ∈ Field.referencesOfAll fields, known.lookup name = none)
    (hcopies : FieldsFor (properties.map Property.narrowed) copies)
    (hknows : Knows known parent properties) :
    ∃ flats, FieldsFor (properties.map (Property.retyped parent)) flats ∧
      Field.inlineAll known flats = copies := by
  induction hfields generalizing copies with
  | nil =>
    cases hcopies
    exact ⟨[], .nil, rfl⟩
  | @cons property field rest others hfield hrest ih =>
    obtain ⟨copy, more, hcopy, hmore, rfl⟩ := List.forall₂_cons_left_iff.1 hcopies
    rw [Field.referencesOfAll_cons] at hrefs
    obtain ⟨hfirst, hothers⟩ := List.forall_mem_append.1 hrefs
    obtain ⟨hknown, hknowns⟩ := forall_inlines_cons.1 hknows
    obtain ⟨flat, hflat, heq⟩ := exists_retyped_field hfield hfirst hcopy hknown
    obtain ⟨flats, hflats, heqs⟩ := ih hothers hmore hknowns
    exact ⟨flat :: flats, .cons hflat hflats, by rw [heq, heqs]⟩

end Retyping

section Learning

/-- An entry for an extracted interface: its fields are those of its narrowed
properties. -/
def Meant (hoisted : Hoisted) (entry : Text × SchemaType) : Prop :=
  entry.1 = hoisted.name ∧ ∃ copies,
    FieldsFor (hoisted.properties.map Property.narrowed) copies ∧ entry.2 = .object copies

/-- The properties of the extracted interface have fields, which refer to no name that
was made up. -/
def Fielded (made : List Text) (hoisted : Hoisted) : Prop :=
  ∃ fields, FieldsFor hoisted.properties fields ∧
    ∀ name ∈ Field.referencesOfAll fields, name ∉ made

/-- What is known of a name is found by it. -/
theorem lookup_of_mem {entries : Known} (hnodup : (entries.map Prod.fst).Nodup)
    {entry : Text × SchemaType} (hentry : entry ∈ entries) (known : Known) :
    (entries.reverse ++ known).lookup entry.1 = some entry.2 := by
  obtain ⟨before, after, rfl⟩ := List.append_of_mem hentry
  refine List.lookup_eq_some_iff.2 ⟨after.reverse, before.reverse ++ known, by simp, ?_⟩
  intro other hother
  rw [List.map_append, List.map_cons] at hnodup
  have hafter := (List.nodup_cons.1 (List.nodup_append.1 hnodup).2.1).1
  rw [bne_iff_ne]
  rintro heq
  exact hafter (heq ▸ List.mem_map_of_mem (List.mem_reverse.1 hother))

/-- Nothing is known of other names. -/
theorem lookup_of_not_mem {name : Text} {entries : Known} (hname : name ∉ entries.map Prod.fst)
    (hknown : known.lookup name = none) : (entries.reverse ++ known).lookup name = none := by
  rw [List.lookup_append, Option.or_eq_none_iff]
  refine ⟨List.lookup_eq_none_iff.2 fun entry hentry => ?_, hknown⟩
  rw [bne_iff_ne]
  rintro rfl
  exact hname (List.mem_map_of_mem (List.mem_reverse.1 hentry))

/-- The entries for interfaces have the names of these. -/
theorem map_fst_of_meant {list : List Hoisted} {entries : Known}
    (h : List.Forall₂ Meant list entries) : entries.map Prod.fst = list.map Hoisted.name := by
  induction h with
  | nil => rfl
  | cons hfirst _ ih => rw [List.map_cons, List.map_cons, hfirst.1, ih]

/-- What the entries for several interfaces say is found by the name of each. -/
theorem recalls_of_meant {list : List Hoisted} {entries : Known}
    (h : List.Forall₂ Meant list entries) (hnodup : (list.map Hoisted.name).Nodup)
    (known : Known) : ∀ hoisted ∈ list, Recalls (entries.reverse ++ known) hoisted := by
  intro hoisted hmem
  obtain ⟨⟨index, hindex⟩, rfl⟩ := List.get_of_mem hmem
  have hentry : index < entries.length := h.length_eq ▸ hindex
  obtain ⟨hname, copies, hcopies, hschema⟩ := h.get hindex hentry
  refine ⟨copies, hcopies, ?_⟩
  rw [← hname, ← hschema]
  exact lookup_of_mem (map_fst_of_meant h ▸ hnodup) (List.getElem_mem hentry) known

/-- Nothing is known of names that were not made up. -/
theorem unknown_of_meant {list : List Hoisted} {entries : Known}
    (h : List.Forall₂ Meant list entries) (hmade : ∀ hoisted ∈ list, hoisted.name ∈ made)
    (hknown : ∀ name, name ∉ made → known.lookup name = none) {name : Text}
    (hname : name ∉ made) : (entries.reverse ++ known).lookup name = none := by
  refine lookup_of_not_mem (fun hmem => ?_) (hknown name hname)
  rw [map_fst_of_meant h] at hmem
  obtain ⟨hoisted, hhoisted, rfl⟩ := List.mem_map.1 hmem
  exact hname (hmade hoisted hhoisted)

/-- The schema of an extracted interface. -/
theorem ofInterface_hoisted {flats : List Field}
    (h : FieldsFor (hoisted.properties.map (Property.retyped hoisted.name)) flats) :
    ofInterface hoisted.decl = .ok ⟨hoisted.name, .object [] flats⟩ := by
  have hmembers : hoisted.decl.members =
      (hoisted.properties.map (Property.retyped hoisted.name)).map .property := by
    rw [List.map_map]
    rfl
  have hcount : hoisted.decl.members.countP isIndex = 0 := by
    rw [hmembers, List.countP_eq_zero]
    rintro member hmember
    obtain ⟨property, -, rfl⟩ := List.mem_map.1 hmember
    exact Bool.false_ne_true
  have hbody : ofMembers hoisted.decl.members = .ok (.object flats) := by
    refine ofMembers_eq ?_ ?_
    · rw [isRecord, hcount]
      exact Bool.and_false _
    · rwa [hmembers, propertiesOf_map_property]
  exact bind_eq_ok.2 ⟨[], rfl, bind_eq_ok.2 ⟨_, hbody, rfl⟩⟩

/-- Statements behind others declare what they do behind what those do. -/
theorem ofItems_append {items more : List Item} {found others : List Declaration}
    (h : ofItems items = .ok found) (hmore : ofItems more = .ok others) :
    ofItems (items ++ more) = .ok (found ++ others) := by
  induction items generalizing found with
  | nil =>
    cases h
    exact hmore
  | cons item rest ih =>
    cases item with
    | interfaceItem decl =>
      obtain ⟨first, hfirst, h⟩ := bind_eq_ok.1 h
      obtain ⟨behind, hbehind, h⟩ := bind_eq_ok.1 h
      cases h
      exact bind_eq_ok.2 ⟨first, hfirst, bind_eq_ok.2 ⟨_, ih hbehind, rfl⟩⟩
    | aliasItem decl =>
      obtain ⟨first, hfirst, h⟩ := bind_eq_ok.1 h
      obtain ⟨behind, hbehind, h⟩ := bind_eq_ok.1 h
      cases h
      exact bind_eq_ok.2 ⟨first, hfirst, bind_eq_ok.2 ⟨_, ih hbehind, rfl⟩⟩
    | importItem | otherItem => exact ih h

/-- Interfaces in front of others are grounded without these. -/
theorem Grounded.of_append {first second : List Hoisted} (h : Grounded (first ++ second)) :
    Grounded first := fun before hoisted after heq =>
  h before hoisted (after ++ second) (by rw [heq, List.append_assoc, List.cons_append])

/-- Extracted interfaces each of which stands behind those it refers to mean what
their narrowed properties do. -/
theorem learn_hoisted {list : List Hoisted} (hgrounded : Grounded list)
    (hnodup : (list.map Hoisted.name).Nodup) (hmade : ∀ hoisted ∈ list, hoisted.name ∈ made)
    (hknown : ∀ name, name ∉ made → known.lookup name = none)
    (hfielded : ∀ hoisted ∈ list, Fielded made hoisted) :
    ∃ declarations entries,
      ofItems (list.map fun hoisted => .interfaceItem hoisted.decl) = .ok declarations ∧
      declarations.map Declaration.name = list.map Hoisted.name ∧
      List.Forall₂ Meant list entries ∧
      declarations.foldl (learn made) known = entries.reverse ++ known := by
  induction list using List.reverseRecOn with
  | nil => exact ⟨[], [], rfl, rfl, .nil, rfl⟩
  | append_singleton list hoisted ih =>
    have hbefore : Grounded list := hgrounded.of_append
    have hbehind := hgrounded list hoisted [] rfl
    obtain ⟨hlist, hlast⟩ := List.forall_mem_append.1 hmade
    obtain ⟨hfielded, hfields⟩ := List.forall_mem_append.1 hfielded
    rw [List.map_append] at hnodup
    have hnodup := (List.nodup_append.1 hnodup).1
    obtain ⟨declarations, entries, hitems, hnames, hmeant, hlearn⟩ :=
      ih hbefore hnodup hlist hfielded
    obtain ⟨fields, hfields, hrefs⟩ := hfields hoisted List.mem_cons_self
    obtain ⟨copies, hcopies, -⟩ :=
      exists_narrowed_list hfields fun inline _ _ hinside => exists_narrowed_fields hinside
    -- the names made up are those that something is known of
    have hunknown (name : Text) (hname : name ∉ made) :
        (entries.reverse ++ known).lookup name = none :=
      unknown_of_meant hmeant hlist hknown hname
    obtain ⟨flats, hflats, hinlined⟩ := exists_retyped_fields hfields
      (fun name hname => hunknown name (hrefs name hname)) hcopies
      fun inline hinline => recalls_of_meant hmeant hnodup known _ (hbehind inline hinline)
    have hdecl : ofItems [.interfaceItem hoisted.decl] =
        .ok [⟨hoisted.name, .object [] flats⟩] :=
      bind_eq_ok.2 ⟨_, ofInterface_hoisted hflats, rfl⟩
    refine ⟨declarations ++ [⟨hoisted.name, .object [] flats⟩],
      entries ++ [(hoisted.name, .object copies)], ?_, ?_, ?_, ?_⟩
    · rw [List.map_append]
      exact ofItems_append hitems hdecl
    · rw [List.map_append, List.map_append, hnames]
      rfl
    · exact List.rel_append hmeant (.cons ⟨rfl, copies, hcopies, rfl⟩ .nil)
    · rw [List.foldl_append, hlearn, List.foldl_cons, List.foldl_nil, learn,
        if_pos (hlast hoisted List.mem_cons_self), Shape.meaning, SchemaType.inline, hinlined,
        List.reverse_append]
      rfl

end Learning

section Files

/-- The fields for the properties in an object type refer to nothing that those around
it do not refer to. -/
theorem exists_fields_of_inline {properties : List Property} (hfields : FieldsFor properties fields)
    {inline : Inline} (hinline : inline ∈ inlines properties) :
    ∃ inside, FieldsFor (propertiesOf inline.members) inside ∧
      Field.referencesOfAll inside ⊆ Field.referencesOfAll fields := by
  induction hfields with
  | nil => cases hinline
  | @cons property field rest others hfield hrest ih =>
    rw [Field.referencesOfAll_cons]
    obtain ⟨found, hfound, hproperty⟩ := List.mem_filterMap.1 hinline
    rcases List.mem_cons.1 hfound with rfl | hfound
    · obtain ⟨span, hobject, rfl⟩ := Inline.eq_of_ofProperty? hproperty
      rw [hobject] at hfield
      obtain ⟨schema, hschema, hfield⟩ := bind_eq_ok.1 hfield
      cases hfield
      obtain ⟨inside, hinside, hcases⟩ := exists_fields_of_members hschema
      refine ⟨inside, hinside, List.Subset.trans ?_ (List.subset_append_left _ _)⟩
      rcases hcases with ⟨-, rfl⟩ | ⟨-, rfl, -⟩
      · exact List.Subset.refl _
      · exact List.nil_subset _
    · obtain ⟨inside, hinside, hsubset⟩ := ih (List.mem_filterMap.2 ⟨found, hfound, hproperty⟩)
      exact ⟨inside, hinside, List.Subset.trans hsubset (List.subset_append_right _ _)⟩

/-- The interfaces that come out of a body have fields. -/
theorem fielded_hoistMembers (hfields : FieldsFor (propertiesOf members) fields)
    (hrefs : ∀ name ∈ Field.referencesOfAll fields, name ∉ made) (parent : Text) :
    ∀ hoisted ∈ hoistMembers parent members, Fielded made hoisted := by
  induction members using body_induction generalizing fields parent with
  | step members ih =>
    intro hoisted hmem
    rw [hoistMembers_eq] at hmem
    obtain ⟨inline, hinline, hmem⟩ := List.mem_flatMap.1 hmem
    obtain ⟨inside, hinside, hsubset⟩ := exists_fields_of_inline hfields hinline
    have hrefs : ∀ name ∈ Field.referencesOfAll inside, name ∉ made := fun name hname =>
      hrefs name (hsubset hname)
    rcases List.mem_append.1 hmem with hmem | hmem
    · exact ih inline hinline hinside hrefs _ hoisted hmem
    · obtain rfl := List.mem_singleton.1 hmem
      exact ⟨inside, hinside, hrefs⟩

/-- Changed properties leave a record one. -/
theorem isRecord_mapProperty (change : Property → Property) (members : List Member) :
    isRecord (members.map (Member.mapProperty change)) = isRecord members := by
  have hindex : isIndex ∘ Member.mapProperty change = isIndex := by
    funext member
    cases member <;> rfl
  rw [isRecord, isRecord, propertiesOf_mapProperty, List.isEmpty_map, List.countP_map, hindex]

/-- Members among which there is no property are not changed. -/
theorem map_mapProperty_of_nil (change : Property → Property) (h : propertiesOf members = []) :
    members.map (Member.mapProperty change) = members := by
  rw [propertiesOf, List.filterMap_eq_nil_iff] at h
  refine (List.map_congr_left fun member hmember => ?_).trans (List.map_id _)
  cases member with
  | property property => exact absurd (h _ hmember) (Option.some_ne_none _)
  | index | mapped | other => rfl

/-- A declared interface has fields besides what it extends, or it holds no property and
its index signature is a record. -/
theorem exists_fields_of_interface {decl : InterfaceDecl} {first : Declaration}
    (h : ofInterface decl = .ok first) :
    ∃ bases fields, decl.parameters = none ∧ ofTypes decl.bases = .ok bases ∧
      FieldsFor (propertiesOf decl.members) fields ∧
        (isRecord decl.members = false ∧ first = ⟨decl.name, .object bases fields⟩ ∨
          propertiesOf decl.members = []) := by
  rw [ofInterface] at h
  cases hparameters : decl.parameters with
  | some span =>
    rw [hparameters] at h
    cases h
  | none =>
    rw [hparameters] at h
    obtain ⟨bases, hbases, h⟩ := bind_eq_ok.1 h
    obtain ⟨body, hbody, h⟩ := bind_eq_ok.1 h
    obtain ⟨fields, hfields, hcases⟩ := exists_fields_of_members hbody
    refine ⟨bases, fields, rfl, hbases, hfields, ?_⟩
    rcases hcases with ⟨hrecord, rfl⟩ | ⟨-, rfl, key, value, rfl⟩
    · exact .inl ⟨hrecord, (Except.ok.inj h).symm⟩
    · exact .inr (List.forall₂_nil_right_iff.1 hfields)

/-- The fields of a declared interface refer to nothing that its declaration does not
refer to. -/
theorem fields_of_interface {decl : InterfaceDecl} {first : Declaration}
    (h : ofInterface decl = .ok first) (hrefs : ∀ name ∈ first.shape.references, name ∉ made) :
    ∃ fields, FieldsFor (propertiesOf decl.members) fields ∧
      ∀ name ∈ Field.referencesOfAll fields, name ∉ made := by
  obtain ⟨bases, fields, -, -, hfields, ⟨-, rfl⟩ | hnone⟩ := exists_fields_of_interface h
  · exact ⟨fields, hfields, (List.forall_mem_append.1 hrefs).2⟩
  · rw [hnone] at hfields
    obtain rfl := List.forall₂_nil_left_iff.1 hfields
    rw [hnone]
    exact ⟨[], .nil, List.forall_mem_nil _⟩

/-- An interface of the source means in the flattened file what it means in the source
exactly if it holds no record. -/
theorem exists_retyped_interface {decl : InterfaceDecl} {first : Declaration}
    (h : ofInterface decl = .ok first)
    (hrefs : ∀ name ∈ first.shape.references, known.lookup name = none)
    (hknows : Knows known decl.name (propertiesOf decl.members)) :
    ∃ flat, ofInterface (decl.mapProperties (Property.retyped decl.name)) = .ok flat ∧
      flat.name = decl.name ∧ (flat.inline known = first ↔ Member.anyRecord decl.members = false) := by
  obtain ⟨bases, fields, hparameters, hbases, hfields, ⟨hrecord, rfl⟩ | hnone⟩ :=
    exists_fields_of_interface h
  · obtain ⟨hextended, hown⟩ := List.forall_mem_append.1 hrefs
    obtain ⟨copies, hcopies, heq⟩ := exists_narrowed_fields hfields
    obtain ⟨flats, hflats, hinlined⟩ := exists_retyped_fields hfields hown hcopies hknows
    have hbody : ofMembers (decl.members.map (Member.mapProperty (Property.retyped decl.name))) =
        .ok (.object flats) := by
      refine ofMembers_eq ?_ ?_
      · rwa [isRecord_mapProperty]
      · rwa [propertiesOf_mapProperty]
    refine ⟨⟨decl.name, .object bases flats⟩, ?_, rfl, ?_⟩
    · rw [InterfaceDecl.mapProperties, ofInterface, hparameters]
      exact bind_eq_ok.2 ⟨bases, hbases, bind_eq_ok.2 ⟨_, hbody, rfl⟩⟩
    · rw [Declaration.inline, Shape.inline, hinlined,
        SchemaType.inlineAll_eq_self bases hextended]
      simp [heq]
  · refine ⟨first, ?_, name_ofInterface h, iff_of_true (Declaration.inline_eq_self first hrefs) ?_⟩
    · rw [InterfaceDecl.mapProperties, map_mapProperty_of_nil _ hnone]
      exact h
    · rw [anyRecord_eq_false_iff, hnone]
      exact List.forall_mem_nil _

/-- What is known of all interfaces that come out of a body is known of those that its
object types become. -/
theorem knows_of_hoistMembers {parent : Text}
    (h : ∀ hoisted ∈ hoistMembers parent members, Recalls known hoisted) :
    Knows known parent (propertiesOf members) := by
  intro inline hinline
  refine h ⟨Naming.extracted parent inline.head.key, propertiesOf inline.members⟩ ?_
  rw [hoistMembers_eq]
  exact List.mem_flatMap.2 ⟨inline, hinline, List.mem_append_right _ List.mem_cons_self⟩

/-- The interfaces that come out of statements. -/
def hoistedIn (items : List Item) : List Hoisted :=
  (items.filterMap Item.interface?).flatMap fun decl => hoistMembers decl.name decl.members

/-- Once everything extracted is known, an interface behind those that come out of it
means what it does in the source exactly if no record was extracted. -/
theorem learn_interface {decl : InterfaceDecl} {first : Declaration}
    (hfirst : ofInterface decl = .ok first)
    (hrefs : ∀ name ∈ first.shape.references, name ∉ made) (hname : first.name ∉ made)
    (hnodup : ((hoistMembers decl.name decl.members).map Hoisted.name).Nodup)
    (hmade : ∀ hoisted ∈ hoistMembers decl.name decl.members, hoisted.name ∈ made)
    (hknown : ∀ name, name ∉ made → known.lookup name = none) :
    ∃ found flat entries, ofItems (hoistItem (.interfaceItem decl)) = .ok found ∧
      found.filter (fun declaration => declaration.name ∉ made) = [flat] ∧
      List.Forall₂ Meant (hoistMembers decl.name decl.members) entries ∧
      found.foldl (learn made) known = entries.reverse ++ known ∧
      ∀ all : Known, (∀ name, name ∉ made → all.lookup name = none) →
        (∀ hoisted ∈ hoistMembers decl.name decl.members, Recalls all hoisted) →
          (flat.inline all = first ↔ Member.anyRecord decl.members = false) := by
  obtain ⟨fields, hfields, hown⟩ := fields_of_interface hfirst hrefs
  obtain ⟨group, entries, hgroup, hgroupNames, hmeant, hlearn⟩ :=
    learn_hoisted (grounded_body decl.name decl.members).of_append hnodup hmade hknown
      (fielded_hoistMembers hfields hown decl.name)
  obtain ⟨flat, hflat, hflatName, -⟩ := exists_retyped_interface hfirst
    (fun name hmem => unknown_of_meant hmeant hmade hknown (hrefs name hmem))
    (knows_of_hoistMembers (recalls_of_meant hmeant hnodup known))
  have hkept : flat.name ∉ made := by rwa [hflatName, ← name_ofInterface hfirst]
  refine ⟨group ++ [flat], flat, entries, ?_, ?_, hmeant, ?_, fun all hunknown hrecalls => ?_⟩
  · exact ofItems_append hgroup (bind_eq_ok.2 ⟨flat, hflat, rfl⟩)
  · have hnone : group.filter (fun declaration => declaration.name ∉ made) = [] := by
      refine List.filter_eq_nil_iff.2 fun declaration hmem => ?_
      have hin : declaration.name ∈ group.map Declaration.name := List.mem_map_of_mem hmem
      rw [hgroupNames] at hin
      obtain ⟨hoisted, hhoisted, heq⟩ := List.mem_map.1 hin
      simpa [heq] using hmade hoisted hhoisted
    rw [List.filter_append, hnone, List.nil_append, List.filter_cons_of_pos (by simpa using hkept),
      List.filter_nil]
  · rw [List.foldl_append, hlearn, List.foldl_cons, List.foldl_nil, learn, if_neg hkept]
  · obtain ⟨other, hother, -, heq⟩ := exists_retyped_interface hfirst
      (fun name hmem => hunknown name (hrefs name hmem)) (knows_of_hoistMembers hrecalls)
    obtain rfl : flat = other := Except.ok.inj (hflat.symm.trans hother)
    exact heq

/-- Once everything extracted is known, the statements of a flattened file mean what
those of the source do exactly if no record was extracted. -/
theorem learn_items {items : List Item} {declarations : List Declaration}
    (h : ofItems items = .ok declarations)
    (hrefs : ∀ declaration ∈ declarations,
      ∀ name ∈ declaration.shape.references, name ∉ made)
    (hnames : ∀ declaration ∈ declarations, declaration.name ∉ made)
    (hnodup : ((hoistedIn items).map Hoisted.name).Nodup)
    (hmade : ∀ hoisted ∈ hoistedIn items, hoisted.name ∈ made)
    (hknown : ∀ name, name ∉ made → known.lookup name = none) :
    ∃ found entries, ofItems (items.flatMap hoistItem) = .ok found ∧
      List.Forall₂ Meant (hoistedIn items) entries ∧
      found.foldl (learn made) known = entries.reverse ++ known ∧
      ∀ all : Known, (∀ name, name ∉ made → all.lookup name = none) →
        (∀ hoisted ∈ hoistedIn items, Recalls all hoisted) →
          ((found.filter fun declaration => declaration.name ∉ made).map (Declaration.inline all) =
              declarations ↔
            ∀ decl ∈ items.filterMap Item.interface?, Member.anyRecord decl.members = false) := by
  induction items generalizing declarations known with
  | nil =>
    cases h
    exact ⟨[], [], rfl, .nil, rfl, fun _ _ _ => iff_of_true rfl fun _ h => nomatch h⟩
  | cons item rest ih =>
    cases item with
    | interfaceItem decl =>
      obtain ⟨first, hfirst, h⟩ := bind_eq_ok.1 h
      obtain ⟨others, hothers, h⟩ := bind_eq_ok.1 h
      cases h
      have hhoisted : hoistedIn (.interfaceItem decl :: rest) =
          hoistMembers decl.name decl.members ++ hoistedIn rest := rfl
      rw [hhoisted, List.map_append] at hnodup
      rw [hhoisted] at hmade ⊢
      obtain ⟨hgroupNodup, hrestNodup, -⟩ := List.nodup_append.1 hnodup
      obtain ⟨hgroupMade, hrestMade⟩ := List.forall_mem_append.1 hmade
      obtain ⟨hfirstRefs, hotherRefs⟩ := List.forall_mem_cons.1 hrefs
      obtain ⟨hfirstName, hotherNames⟩ := List.forall_mem_cons.1 hnames
      obtain ⟨group, flat, entries, hgroup, hkept, hmeant, hlearn, hone⟩ :=
        learn_interface hfirst hfirstRefs hfirstName hgroupNodup hgroupMade hknown
      obtain ⟨found, more, hfound, hmore, hlearned, hall⟩ :=
        ih hothers hotherRefs hotherNames hrestNodup hrestMade fun name hmem =>
          unknown_of_meant hmeant hgroupMade hknown hmem
      refine ⟨group ++ found, entries ++ more, ?_, List.rel_append hmeant hmore, ?_,
        fun all hunknown hrecalls => ?_⟩
      · exact ofItems_append hgroup hfound
      · rw [List.foldl_append, hlearn, hlearned, List.reverse_append, List.append_assoc]
      · obtain ⟨hgroupRecalls, hrestRecalls⟩ := List.forall_mem_append.1 hrecalls
        rw [List.filter_append, hkept, List.singleton_append, List.map_cons, List.cons_eq_cons,
          hone all hunknown hgroupRecalls, hall all hunknown hrestRecalls]
        exact (List.forall_mem_cons (p := fun decl : InterfaceDecl =>
          Member.anyRecord decl.members = false)).symm
    | aliasItem decl =>
      obtain ⟨first, hfirst, h⟩ := bind_eq_ok.1 h
      obtain ⟨others, hothers, h⟩ := bind_eq_ok.1 h
      cases h
      obtain ⟨hfirstRefs, hotherRefs⟩ := List.forall_mem_cons.1 hrefs
      obtain ⟨hfirstName, hotherNames⟩ := List.forall_mem_cons.1 hnames
      obtain ⟨found, entries, hfound, hmeant, hlearn, hall⟩ :=
        ih hothers hotherRefs hotherNames hnodup hmade hknown
      refine ⟨first :: found, entries, ?_, hmeant, ?_, fun all hunknown hrecalls => ?_⟩
      · exact bind_eq_ok.2 ⟨first, hfirst, bind_eq_ok.2 ⟨found, hfound, rfl⟩⟩
      · rw [List.foldl_cons, learn, if_neg hfirstName, hlearn]
      · rw [List.filter_cons_of_pos (by simpa using hfirstName), List.map_cons,
          Declaration.inline_eq_self first fun name hname => hunknown name (hfirstRefs name hname),
          List.cons_eq_cons, hall all hunknown hrecalls]
        exact and_iff_right rfl
    | importItem | otherItem => exact ih h hrefs hnames hnodup hmade hknown

end Files

/-- Whether the type of a field is a record. -/
def isRecordField (field : Field) : Bool :=
  match field.type with
  | .record _ _ => true
  | _ => false

/-- Whether a declaration has a field whose type is a record. -/
def holdsRecord (declaration : Declaration) : Bool :=
  match declaration.shape with
  | .object _ fields => fields.any isRecordField
  | .type _ => false

end Flatten

end InterfaceSchema
