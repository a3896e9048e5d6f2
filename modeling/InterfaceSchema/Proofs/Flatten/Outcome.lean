import InterfaceSchema.Proofs.Flatten.Fresh
import InterfaceSchema.Proofs.Flatten.Refinement
import InterfaceSchema.Proofs.Syntax.Alike
import InterfaceSchema.Proofs.Syntax.Printing

/-!
# What a flattened file should be read as

Flattening prints a text, and the file it stands for can be said without reading
that text: each interface with references in place of its object types, and in
front of it the interfaces that come out of these. Whether the text is read as
that file can be computed. It is not for all sources, since the name of an
extracted interface need not be a name.
-/

namespace InterfaceSchema

/-- The property of the interface `parent` with a reference to the extracted
interface in place of an object type. -/
def Property.retyped (parent : Text) (property : Property) : Property :=
  match property.members? with
  | some _ =>
    ⟨property.head, some (.reference (Naming.extracted parent property.head.key) [] .nowhere)⟩
  | none => property

/-- The member with its property changed, if it is one. -/
def Member.mapProperty (change : Property → Property) : Member → Member
  | .property found => .property (change found)
  | member => member

/-- The interface with its properties changed. -/
def InterfaceDecl.mapProperties (change : Property → Property) (decl : InterfaceDecl) :
    InterfaceDecl :=
  { decl with members := decl.members.map (Member.mapProperty change) }

namespace Flatten

/-- The declaration of an extracted interface. -/
def Hoisted.decl (hoisted : Hoisted) : InterfaceDecl :=
  ⟨hoisted.name, .nowhere, true, none, [],
    hoisted.properties.map fun property => .property (property.retyped hoisted.name), .nowhere⟩

/-- The statement behind the interfaces that come out of it. -/
def hoistItem : Item → List Item
  | .interfaceItem decl =>
    (hoistMembers decl.name decl.members).map (fun hoisted => .interfaceItem hoisted.decl) ++
      [.interfaceItem (decl.mapProperties (Property.retyped decl.name))]
  | item => [item]

/-- All interfaces that come out of the interfaces of a file. -/
def hoistedOf (file : SourceFile) : List Hoisted :=
  file.interfaces.flatMap fun decl => hoistMembers decl.name decl.members

/-- The names made up for them. -/
def madeNames (file : SourceFile) : List Text := (hoistedOf file).map Hoisted.name

/-- The text is read as what flattening makes of the file. -/
def ReadAsHoisted (file : SourceFile) (text : Text) : Prop :=
  ∃ again, SourceFile.read text = some again ∧
    Item.allAlike (file.items.flatMap hoistItem) again.items = true

instance (file : SourceFile) (text : Text) : Decidable (ReadAsHoisted file text) :=
  decidable_of_iff ((SourceFile.read text).any fun again =>
    Item.allAlike (file.items.flatMap hoistItem) again.items) (by
      rw [ReadAsHoisted, Option.any_eq_true])

/-- The properties of changed members are the changed properties. -/
theorem propertiesOf_mapProperty (change : Property → Property) (members : List Member) :
    propertiesOf (members.map (Member.mapProperty change)) = (propertiesOf members).map change := by
  induction members with
  | nil => rfl
  | cons member rest ih =>
    cases member with
    | property property => exact congrArg (List.cons _) ih
    | index | mapped | other => exact ih

/-- The properties of an extracted interface are all its members. -/
theorem propertiesOf_map_property (properties : List Property) :
    propertiesOf (properties.map Member.property) = properties := by
  rw [propertiesOf, List.filterMap_map]
  exact List.filterMap_some

/-- The place of a draft in the source, with its name. -/
def Draft.declared? (draft : Draft) : Option Text := draft.origin.map fun _ => draft.name

/-- No interface is declared that the source does not declare. -/
theorem declared_of_flattenFrom {file : SourceFile} {count : Nat} {state : State}
    (h : (State.ofFile file).flattenFrom 0 count = .ok state) :
    state.drafts.filterMap Draft.declared? = file.interfaces.map InterfaceDecl.name := by
  refine flattenFrom_preserves
    (P := fun state =>
      state.drafts.filterMap Draft.declared? = file.interfaces.map InterfaceDecl.name)
    (fun {before next parent parentName inline} hbefore hnext => ?_) ?_ h
  · rw [State.extract] at hnext
    split at hnext
    · cases hnext
    cases hnext
    let rename (draft : Draft) : Draft :=
      { draft with renamed := draft.renamed ++
          [(inline.type.span, Naming.extracted parentName inline.head.key)] }
    have hrename (draft : Draft) : (rename draft).declared? = draft.declared? := rfl
    rw [List.filterMap_append, filterMap_modify hrename, hbefore]
    exact List.append_nil _
  · rw [State.ofFile, List.filterMap_map, ← List.filterMap_eq_map]
    rfl

/-- Every draft is declared or extracted. -/
theorem names_perm (drafts : List Draft) :
    (drafts.map Draft.name).Perm
      (drafts.filterMap Draft.extracted? ++ drafts.filterMap Draft.declared?) := by
  induction drafts with
  | nil => exact .nil
  | cons draft rest ih =>
    rw [List.map_cons, List.filterMap_cons, List.filterMap_cons]
    cases horigin : draft.origin with
    | none =>
      have hextracted : draft.extracted? = some draft.name := by rw [Draft.extracted?, horigin]
      have hdeclared : draft.declared? = none := by rw [Draft.declared?, horigin]; rfl
      rw [hextracted, hdeclared]
      exact ih.cons _
    | some span =>
      have hextracted : draft.extracted? = none := by rw [Draft.extracted?, horigin]
      have hdeclared : draft.declared? = some draft.name := by rw [Draft.declared?, horigin]; rfl
      rw [hextracted, hdeclared]
      exact (ih.cons _).trans List.perm_middle.symm

/-- The names made up are those of the extracted interfaces. -/
theorem extracted_perm {source text : Text} {file : SourceFile}
    (hread : SourceFile.read source = some file) (h : flatten source = .ok text) :
    ∃ state, (State.ofFile file).flattenFrom 0 (totalWeight file) = .ok state ∧
      state.extracted.Perm (madeNames file) := by
  obtain ⟨found, state, hfound, hrun, -, hperm, -⟩ := flatten_hoists h
  obtain rfl : file = found := Option.some.inj (hread.symm.trans hfound)
  have hrun : (State.ofFile file).flattenFrom 0 (totalWeight file) = .ok state := hrun 0
  refine ⟨state, hrun, ?_⟩
  have hdrafts := names_perm state.drafts
  rw [declared_of_flattenFrom hrun] at hdrafts
  have hnames : ((file.interfaces.flatMap hoistDecl).map Hoisted.name).Perm
      (madeNames file ++ file.interfaces.map InterfaceDecl.name) := by
    rw [madeNames, hoistedOf]
    induction file.interfaces with
    | nil => exact .nil
    | cons decl rest ih =>
      rw [List.flatMap_cons, List.flatMap_cons, List.map_cons, List.map_append, List.map_append,
        hoistDecl, List.map_append, List.append_assoc, List.append_assoc]
      exact (List.perm_append_left_iff _).2 ((ih.cons _).trans List.perm_middle.symm)
  have hhoisted : (state.drafts.map Draft.name).Perm
      ((file.interfaces.flatMap hoistDecl).map Hoisted.name) := by
    have hmap := hperm.map Hoisted.name
    rwa [List.map_map] at hmap
  exact (List.perm_append_right_iff _).1 (hdrafts.symm.trans (hhoisted.trans hnames))

/-- The names made up are different from each other and from those in the
source. -/
theorem nodup_madeNames {source text : Text} {file : SourceFile}
    (hread : SourceFile.read source = some file) (h : flatten source = .ok text) :
    (madeNames file).Nodup ∧ ∀ name ∈ madeNames file, name ∉ file.declaredNames := by
  obtain ⟨state, hrun, hperm⟩ := extracted_perm hread h
  have hfresh := fresh_of_flattenFrom hrun
  exact ⟨hperm.nodup_iff.1 hfresh.nodup, fun name hname =>
    hfresh.apart name (hperm.mem_iff.2 hname)⟩

end Flatten

end InterfaceSchema
