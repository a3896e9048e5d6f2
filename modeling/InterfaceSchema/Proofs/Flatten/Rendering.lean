import InterfaceSchema.Proofs.Flatten.Hoisting
import InterfaceSchema.Proofs.Layout

/-!
# Rendering interfaces whose object types are out

Flattening keeps a table of the types that an interface gave away, keyed by
where they stand. As long as no two properties of an interface have an object
type at one place, looking a type up in that table says whether it is an object
type, and the interface is rendered as the recursive description prints it.
-/

namespace InterfaceSchema.Flatten

/-- Two properties that do not share the place of an object type. -/
def Apart (first second : Property) : Prop :=
  ∀ left right, first.type = some left → second.type = some right →
    (left.members?.isSome ∨ right.members?.isSome) → left.span ≠ right.span

/-- Properties whose object types stand at places of their own, and so do
those in the object types, at any depth. -/
inductive Separate : List Property → Prop
  | intro {properties : List Property} (apart : properties.Pairwise Apart)
      (below : ∀ inline ∈ inlines properties, Separate (propertiesOf inline.members)) :
      Separate properties

/-- The types that an interface gives away and the names that replace
them. -/
def renamings (name : Text) (list : List Inline) : List (Span × Text) :=
  list.map fun inline => (inline.type.span, Naming.extracted name inline.head.key)

/-- A type that stands elsewhere than all types given away is not found. -/
theorem lookup_renamings_eq_none {name : Text} {list : List Inline} {span : Span}
    (h : ∀ inline ∈ list, span ≠ inline.type.span) : (renamings name list).lookup span = none := by
  induction list with
  | nil => rfl
  | cons inline rest ih =>
    have hfirst := h inline List.mem_cons_self
    have hrest := ih fun other hother => h other (List.mem_cons_of_mem _ hother)
    rw [renamings, List.map_cons, List.lookup_cons, beq_false_of_ne hfirst]
    exact hrest

/-- An inline property comes from a property with an object type. -/
theorem mem_inlines {properties : List Property} {inline : Inline}
    (h : inline ∈ inlines properties) :
    ∃ property ∈ properties, property.type = some inline.type ∧ inline.type.members?.isSome := by
  obtain ⟨property, hmem, hproperty⟩ := List.mem_filterMap.1 h
  obtain ⟨span, htype, heq⟩ := Inline.eq_of_ofProperty? hproperty
  exact ⟨property, hmem, by rw [heq], by rw [htype]; rfl⟩

/-- What the table says about the type of a property: the name of the
extracted interface for an object type, nothing for any other. -/
theorem lookup_renamings {name : Text} {properties : List Property}
    (hapart : properties.Pairwise Apart) {property : Property} (hmem : property ∈ properties)
    {type : TypeExpr} (htype : property.type = some type) :
    (renamings name (inlines properties)).lookup type.span =
      type.members?.map fun _ => Naming.extracted name property.head.key := by
  induction properties with
  | nil => simp at hmem
  | cons first rest ih =>
    obtain ⟨hfirst, hrest⟩ := List.pairwise_cons.1 hapart
    rcases List.mem_cons.1 hmem with rfl | hmem
    · cases hinline : Inline.ofProperty? property with
      | some inline =>
        obtain ⟨span, hobject, heq⟩ := Inline.eq_of_ofProperty? hinline
        obtain rfl : inline.type = type := by simpa [heq] using htype
        have hhead : inline.head = property.head := by rw [heq]
        simp [inlines, hinline, renamings, hobject, TypeExpr.members?, hhead]
      | none =>
        have hmembers : type.members? = none := by
          cases h : type.members? with
          | none => rfl
          | some members => simp [Inline.ofProperty?, htype, h] at hinline
        have hnone : (renamings name (inlines rest)).lookup type.span = none := by
          refine lookup_renamings_eq_none fun inline hin => ?_
          obtain ⟨other, hother, hot, hob⟩ := mem_inlines hin
          exact hfirst other hother type inline.type htype hot (.inr hob)
        simpa [inlines, hinline, hmembers] using hnone
    · have hrec := ih hrest hmem
      cases hinline : Inline.ofProperty? first with
      | none => simpa [inlines, hinline] using hrec
      | some inline =>
        obtain ⟨span, hobject, heq⟩ := Inline.eq_of_ofProperty? hinline
        have hne : type.span ≠ inline.type.span := fun h =>
          hfirst property hmem inline.type type (by rw [heq]) htype
            (.inl (by rw [hobject]; rfl)) h.symm
        have hcons : inlines (first :: rest) = inline :: inlines rest := by
          simp [inlines, hinline]
        rw [hcons, renamings, List.map_cons, List.lookup_cons, beq_false_of_ne hne]
        exact hrec

/-- The line of a property is printed with the name of the extracted
interface if its type is given away, and with its type otherwise. -/
theorem propertyLines_renamings (source name : Text) {properties : List Property}
    (hapart : properties.Pairwise Apart) {property : Property} (hmem : property ∈ properties) :
    propertyLines source (renamings name (inlines properties)) property =
      printProperty source name property := by
  have hline : propertyLine source (renamings name (inlines properties)) property =
      (if property.head.readonly then ("readonly " : Text) else []) ++ property.head.name ++
        (if property.head.optional then ['?'] else []) ++ printType source name property ++
        [';'] := by
    cases htype : property.type with
    | none =>
      simp only [propertyLine, printType, htype, List.append_assoc]
      rfl
    | some type =>
      have hlookup := @lookup_renamings name _ hapart _ hmem _ htype
      cases hmembers : type.members? with
      | none =>
        simp only [propertyLine, printType, htype, hlookup, hmembers, List.append_assoc]
        rfl
      | some members =>
        simp only [propertyLine, printType, htype, hlookup, hmembers, List.append_assoc]
        rfl
  rw [propertyLines, printProperty, hline]
  cases property.head.docs <;> rfl

/-- An extracted interface is rendered as it is printed. -/
theorem renderExtracted_renamings (source name : Text) {properties : List Property}
    (hapart : properties.Pairwise Apart) :
    renderExtracted source ⟨name, none, properties, renamings name (inlines properties)⟩ =
      Hoisted.print source ⟨name, properties⟩ := by
  have hlines : properties.flatMap
      (propertyLines source (renamings name (inlines properties))) =
        properties.flatMap (printProperty source name) := by
    rw [List.flatMap_def, List.flatMap_def]
    exact congrArg List.flatten
      (List.map_congr_left fun property hmem => propertyLines_renamings source name hapart hmem)
  by_cases hempty : properties = []
  · subst hempty
    simp only [renderExtracted, Hoisted.print, List.isEmpty_nil, if_true, Writer.line, Writer.new,
      Writer.margin, List.nil_append, List.append_assoc]
    rfl
  · have hinner : Writer.marginLine .extracted 1 = innerLine := by
      funext line
      simp only [Writer.marginLine, Writer.margin, innerLine, List.append_nil, List.append_assoc]
      rfl
    have houter (line : Text) : Writer.marginLine .extracted 0 line = line ++ ['\n'] := rfl
    simp only [renderExtracted, List.isEmpty_iff, hempty, if_false, Hoisted.print,
      Writer.within_allLines_text, hlines, Writer.new, Nat.zero_add, hinner, houter,
      List.nil_append, List.append_assoc]
    rfl

/-- A declared interface is rendered with the names in place of the types it
gives away. -/
theorem replaceParts_renamings (source name : Text) (cursor stop : Nat) (list : List Inline) :
    replaceParts source cursor stop (renamings name list) =
      retype source name cursor stop list := by
  induction list generalizing cursor with
  | nil => rfl
  | cons inline rest ih =>
    rw [retype, ← ih]
    rfl

end InterfaceSchema.Flatten
