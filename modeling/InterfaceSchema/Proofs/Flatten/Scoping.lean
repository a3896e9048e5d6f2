import InterfaceSchema.Proofs.Flatten.Copying

/-!
# References of extracted interfaces

An extracted interface declares no type parameters, and extracting it does not look
at those of the interface that it comes from. It refers to the interfaces extracted
for its own object types and to whatever the other annotations in its object type
refer to. So a type parameter stays in scope exactly if no object type refers to it.
-/

namespace InterfaceSchema

namespace TypeExpr

mutual

/-- The names that a type refers to, at any depth, when `hidden` gives the names in the
parts that are read as a whole, such as functions and look-ups. -/
def references (hidden : Span → List Text) : TypeExpr → List Text
  | .keyword _ _ | .literal _ _ => []
  | .unsupported span => hidden span
  | .reference name types _ => name :: referencesOfTypes hidden types
  | .tuple types _ | .union types _ | .intersection types _ => referencesOfTypes hidden types
  | .array type _ | .paren type _ => references hidden type
  | .object members _ => referencesOfMembers hidden members

/-- The names that several types refer to. -/
def referencesOfTypes (hidden : Span → List Text) : List TypeExpr → List Text
  | [] => []
  | type :: rest => references hidden type ++ referencesOfTypes hidden rest

/-- The names that a member refers to. -/
def referencesOfMember (hidden : Span → List Text) : Member → List Text
  | .property ⟨_, none⟩ => []
  | .property ⟨_, some type⟩ => references hidden type
  | .index key value _ _ => references hidden key ++ references hidden value
  | .mapped span | .other span => hidden span

/-- The names that several members refer to. -/
def referencesOfMembers (hidden : Span → List Text) : List Member → List Text
  | [] => []
  | member :: rest => referencesOfMember hidden member ++ referencesOfMembers hidden rest

end

end TypeExpr

namespace Flatten

variable {source text name : Text} {hidden : Span → List Text} {members : List Member}

/-- The names that a property of the interface `parent` refers to: for an object type
this is the interface extracted for it. -/
def printedReferences (hidden : Span → List Text) (parent : Text) (property : Property) :
    List Text :=
  match property.type with
  | none => []
  | some type =>
    match type.members? with
    | some _ => [Naming.extracted parent property.head.key]
    | none => type.references hidden

/-- The names that an extracted interface refers to. -/
def Hoisted.references (hidden : Span → List Text) (hoisted : Hoisted) : List Text :=
  hoisted.properties.flatMap (printedReferences hidden hoisted.name)

/-- An object type in place of a property, at any depth, refers to the name in the
annotation of a property that has no object type itself. -/
inductive InlineRefers (hidden : Span → List Text) (name : Text) : List Member → Prop
  | direct {members : List Member} {inline : Inline} {property : Property} {type : TypeExpr}
      (hinline : inline ∈ inlines (propertiesOf members))
      (hproperty : property ∈ propertiesOf inline.members) (htype : property.type = some type)
      (hcopied : type.members? = none) (hname : name ∈ type.references hidden) :
      InlineRefers hidden name members
  | nested {members : List Member} {inline : Inline}
      (hinline : inline ∈ inlines (propertiesOf members))
      (hinside : InlineRefers hidden name inline.members) : InlineRefers hidden name members

/-- What a property refers to besides interfaces extracted for it. -/
theorem mem_printedReferences {parent : Text} {property : Property} :
    name ∈ printedReferences hidden parent property ↔
      (∃ inline, Inline.ofProperty? property = some inline ∧
        name = Naming.extracted parent inline.head.key) ∨
      ∃ type, property.type = some type ∧ type.members? = none ∧ name ∈ type.references hidden := by
  obtain ⟨head, type⟩ := property
  cases type with
  | none => simp [printedReferences, Inline.ofProperty?]
  | some type =>
    cases hmembers : type.members? <;> simp [printedReferences, Inline.ofProperty?, hmembers]

/-- References to an extracted interface stand behind it. -/
theorem exists_hoisted_of_inline {parent : Text} {hoisted : Hoisted}
    (h : hoisted ∈ hoistMembers parent members) {inline : Inline}
    (hinline : inline ∈ inlines hoisted.properties) :
    ∃ other ∈ hoistMembers parent members,
      other.name = Naming.extracted hoisted.name inline.head.key := by
  obtain ⟨before, after, hlist⟩ := List.append_of_mem h
  have hgrounded := grounded_body parent members
  rw [hlist, List.append_assoc, List.cons_append] at hgrounded
  rw [hlist]
  exact ⟨_, List.mem_append_left _ (hgrounded before hoisted _ rfl inline hinline), rfl⟩

/-- What is referred to in an annotation that is copied stands in an object type. -/
theorem inlineRefers_of_hoisted {parent : Text} {hoisted : Hoisted}
    (h : hoisted ∈ hoistMembers parent members) {property : Property}
    (hproperty : property ∈ hoisted.properties) {type : TypeExpr}
    (htype : property.type = some type) (hcopied : type.members? = none)
    (hname : name ∈ type.references hidden) : InlineRefers hidden name members := by
  induction members using body_induction generalizing parent with
  | step members ih =>
    rw [hoistMembers_eq] at h
    obtain ⟨inline, hinline, h⟩ := List.mem_flatMap.1 h
    rcases List.mem_append.1 h with h | h
    · exact .nested hinline (ih inline hinline h)
    · obtain rfl := List.mem_singleton.1 h
      exact .direct hinline hproperty htype hcopied hname

/-- What an object type refers to, the interface extracted for it does. -/
theorem exists_hoisted_of_inlineRefers (h : InlineRefers hidden name members) (parent : Text) :
    ∃ hoisted ∈ hoistMembers parent members, name ∈ hoisted.references hidden := by
  induction h generalizing parent with
  | @direct members inline property type hinline hproperty htype hcopied hname =>
    refine ⟨⟨Naming.extracted parent inline.head.key, propertiesOf inline.members⟩, ?_, ?_⟩
    · rw [hoistMembers_eq]
      exact List.mem_flatMap.2 ⟨inline, hinline, List.mem_append_right _ List.mem_cons_self⟩
    · exact List.mem_flatMap.2
        ⟨property, hproperty, mem_printedReferences.2 (.inr ⟨type, htype, hcopied, hname⟩)⟩
  | @nested members inline hinline hinside ih =>
    obtain ⟨hoisted, hhoisted, hname⟩ := ih (Naming.extracted parent inline.head.key)
    refine ⟨hoisted, ?_, hname⟩
    rw [hoistMembers_eq]
    exact List.mem_flatMap.2 ⟨inline, hinline, List.mem_append_left _ hhoisted⟩

/-- Besides to one another, the interfaces that come out of members refer to what the
object types in the members refer to. -/
theorem exists_reference_iff {parent : Text}
    (hother : ∀ hoisted ∈ hoistMembers parent members, hoisted.name ≠ name) :
    (∃ hoisted ∈ hoistMembers parent members, name ∈ hoisted.references hidden) ↔
      InlineRefers hidden name members := by
  refine ⟨?_, fun h => exists_hoisted_of_inlineRefers h parent⟩
  rintro ⟨hoisted, hhoisted, hname⟩
  obtain ⟨property, hproperty, hname⟩ := List.mem_flatMap.1 hname
  rcases mem_printedReferences.1 hname with
    ⟨inline, hinline, rfl⟩ | ⟨type, htype, hcopied, hname⟩
  · obtain ⟨other, hmem, heq⟩ :=
      exists_hoisted_of_inline hhoisted (List.mem_filterMap.2 ⟨property, hproperty, hinline⟩)
    exact absurd heq (hother other hmem)
  · exact inlineRefers_of_hoisted hhoisted hproperty htype hcopied hname

/-- An extracted interface declares no type parameters. -/
theorem header_prefix_print (source : Text) (hoisted : Hoisted) :
    ("export interface " ++ hoisted.name ++ " \x7b" : Text) <+: hoisted.print source := by
  rw [Hoisted.print]
  split
  · exact ⟨("\x7d\n\n" : Text), by simp⟩
  · exact ⟨("\n" : Text) ++ (hoisted.properties.flatMap (printProperty source hoisted.name)).flatMap
      innerLine ++ "\x7d\n\n", by simp⟩

/-- Extracted interfaces are printed without type parameters, each property with its
annotation or the name of an interface extracted for it. To a name that is no such one,
a type parameter for example, an interface extracted out of a declared one refers
exactly if one of the object types in that declaration does. -/
theorem flatten_keeps_references (h : flatten source = .ok text) :
    ∃ file, SourceFile.read source = some file ∧ ∀ decl ∈ file.interfaces,
      (∀ hoisted ∈ hoistMembers decl.name decl.members,
        hoisted.print source <:+: text ∧
          ("export interface " ++ hoisted.name ++ " \x7b" : Text) <+: hoisted.print source ∧
          ∀ property ∈ hoisted.properties,
            innerLine (signature source property.head (printType source hoisted.name property)) <:+:
              hoisted.print source) ∧
      ∀ hidden name, (∀ hoisted ∈ hoistMembers decl.name decl.members, hoisted.name ≠ name) →
        ((∃ hoisted ∈ hoistMembers decl.name decl.members, name ∈ hoisted.references hidden) ↔
          InlineRefers hidden name decl.members) := by
  obtain ⟨file, hread, rfl⟩ := exists_printFrom_of_flatten h
  refine ⟨file, hread, fun decl hdecl => ⟨fun hoisted hhoisted => ⟨?_, ?_, ?_⟩, ?_⟩⟩
  · exact print_infix_printFrom hdecl hhoisted 0
  · exact header_prefix_print source hoisted
  · intro property hproperty
    exact signature_infix_print (SourceFile.stands_of_read hread property
      (SourceFile.mem_properties hdecl (mem_propertiesOfMembers hhoisted hproperty))) hproperty
  · exact fun hidden name hother => exists_reference_iff hother

/-- A source with an object type that refers to a type parameter of the interface
around it. -/
def parameterSource : Text := "interface A<T> \x7b b: \x7b c: T \x7d \x7d"

/-- The source flattened. -/
def parameterText : Text :=
  "export interface A_properties_b \x7b\n    c: T;\n\x7d\n\n" ++
    "interface A<T> \x7b b: A_properties_b \x7d"

/-- The interface extracted for the object type refers to the type parameter. -/
theorem exists_parameter :
    flatten parameterSource = .ok parameterText ∧
      ∃ file, SourceFile.read parameterSource = some file ∧ ∃ decl ∈ file.interfaces,
        decl.parameters.map (fun span => span.slice parameterSource) = some ("<T>" : Text) ∧
        (∀ hoisted ∈ hoistMembers decl.name decl.members, hoisted.name ≠ ("T" : Text)) ∧
        ∃ hoisted ∈ hoistMembers decl.name decl.members,
          ("T" : Text) ∈ hoisted.references fun _ => [] := by
  obtain ⟨htext, file, hread, decl, hdecl, hoisted, hhoisted, h⟩ :=
    @exists_hoisted parameterSource parameterText (fun decl hoisted =>
      decl.parameters.map (fun span => span.slice parameterSource) == some ("<T>" : Text) &&
        ((hoistMembers decl.name decl.members).all (fun other => other.name != ("T" : Text)) &&
          (hoisted.references fun _ => []).contains ("T" : Text))) (by decide +kernel)
  obtain ⟨hparameters, h⟩ := Bool.and_eq_true_iff.1 h
  obtain ⟨hother, hname⟩ := Bool.and_eq_true_iff.1 h
  refine ⟨htext, file, hread, decl, hdecl, eq_of_beq hparameters, ?_, hoisted, hhoisted,
    List.contains_iff_mem.1 hname⟩
  exact fun other hmem => bne_iff_ne.1 (List.all_eq_true.1 hother other hmem)

/-- The object type itself refers to the type parameter. -/
theorem flatten_keeps_references_parameter :
    flatten parameterSource = .ok parameterText ∧
      ∃ file, SourceFile.read parameterSource = some file ∧
        ∃ decl ∈ file.interfaces, InlineRefers (fun _ => []) "T" decl.members := by
  obtain ⟨htext, found, hfound, decl, hdecl, -, hother, hreference⟩ := exists_parameter
  obtain ⟨file, hread, hall⟩ := flatten_keeps_references htext
  obtain rfl : found = file := Option.some.inj (hfound.symm.trans hread)
  exact ⟨htext, found, hfound, decl, hdecl, ((hall decl hdecl).2 _ _ hother).1 hreference⟩

/-- Extracted interfaces can refer to a type parameter of the interface they come from,
out of its scope. -/
theorem not_references_in_scope :
    ¬∀ source text file, flatten source = .ok text → SourceFile.read source = some file →
      ∀ decl ∈ file.interfaces, ∀ parameter : Text,
        decl.parameters.map (fun span => span.slice source) = some ("<" ++ parameter ++ ">") →
          ∀ hoisted ∈ hoistMembers decl.name decl.members,
            parameter ∉ hoisted.references fun _ => [] := by
  intro h
  obtain ⟨htext, file, hread, decl, hdecl, hparameters, -, hoisted, hhoisted, hname⟩ :=
    exists_parameter
  exact h parameterSource parameterText file htext hread decl hdecl "T" hparameters hoisted
    hhoisted hname

end Flatten

end InterfaceSchema
