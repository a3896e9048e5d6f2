import InterfaceSchema.Proofs.Flatten.Worklist
import InterfaceSchema.Proofs.Syntax.Nesting

/-!
# Flattening is hoisting

In a source file that was read, properties stand one behind the other, so that
their object types stand at places of their own. What the queue makes of the
file is therefore what the recursive description prints: every object type is
printed once, before the interface that refers to it, and none is left.
-/

namespace InterfaceSchema.Flatten

/-- The interfaces that come out of a declared interface, and the interface
itself behind them. -/
def hoistDecl (decl : InterfaceDecl) : List Hoisted :=
  hoistMembers decl.name decl.members ++ [⟨decl.name, propertiesOf decl.members⟩]

/-- The members of an object type make less work than the body it stands
in. -/
theorem membersWeight_lt {members : List Member} {inline : Inline}
    (h : inline ∈ inlines (propertiesOf members)) :
    membersWeight inline.members < membersWeight members := by
  have hlist (list : List Inline) (hmem : inline ∈ list) :
      membersWeight inline.members < inlinesWeight list := by
    induction list with
    | nil => simp at hmem
    | cons first rest ih =>
      rw [inlinesWeight]
      rcases List.mem_cons.1 hmem with rfl | hmem
      · omega
      · have hrest := ih hmem
        omega
  rw [membersWeight_eq members]
  exact hlist _ h

/-- Induction over bodies: what holds of a body as soon as it holds of the
object types in it holds of all bodies. -/
theorem body_induction {P : List Member → Prop}
    (step : ∀ members, (∀ inline ∈ inlines (propertiesOf members), P inline.members) → P members)
    (members : List Member) : P members := by
  induction hweight : membersWeight members using Nat.strongRecOn generalizing members with
  | ind weight ih =>
    subst hweight
    exact step members fun inline hinline => ih _ (membersWeight_lt hinline) inline.members rfl

section Separation

variable {source : Text} {start stop : Nat} {members : List Member}

/-- A sound object type takes up room. -/
theorem room_of_object {type : TypeExpr} (h : type.Sound source) (hobject : type.members?.isSome) :
    type.span.start < type.span.stop := by
  cases type with
  | object members span => exact h.2.1
  | _ => simp [TypeExpr.members?] at hobject

/-- The properties of members are the members that are properties. -/
theorem mem_propertiesOf {property : Property} :
    property ∈ propertiesOf members ↔ Member.property property ∈ members := by
  constructor
  · intro hmem
    obtain ⟨member, hmember, hproperty⟩ := List.mem_filterMap.1 hmem
    cases member with
    | property found =>
      obtain rfl : found = property := Option.some.inj hproperty
      exact hmember
    | _ => cases hproperty
  · intro hmem
    exact List.mem_filterMap.2 ⟨_, hmem, rfl⟩

/-- The declared types of sound members stand between the positions. -/
theorem type_of_membersSound (h : MembersSound source start stop members) {property : Property}
    (hmem : property ∈ propertiesOf members) {type : TypeExpr} (htype : property.type = some type) :
    start ≤ type.span.start ∧ type.Sound source := by
  induction members generalizing start with
  | nil => simp [propertiesOf] at hmem
  | cons member rest ih =>
    obtain ⟨hmember, hrest⟩ := h
    obtain ⟨hspan, hstart⟩ := hmember.span
    have hle := hspan.le
    rcases List.mem_cons.1 (mem_propertiesOf.1 hmem) with rfl | hfound
    · obtain ⟨head, declared⟩ := property
      subst htype
      obtain ⟨hhead, hname, hsound, -⟩ := hmember
      have hhead_start := hhead.start_le
      have hname_le := hhead.name.le
      have hhead_span : start ≤ head.span.start := hstart
      exact ⟨by omega, hsound⟩
    · obtain ⟨hbehind, hsound⟩ := ih hrest (mem_propertiesOf.2 hfound)
      exact ⟨by omega, hsound⟩

/-- The properties of sound members have their object types at places of
their own. -/
theorem apart_of_membersSound (h : MembersSound source start stop members) :
    (propertiesOf members).Pairwise Apart := by
  induction members generalizing start with
  | nil => exact List.Pairwise.nil
  | cons member rest ih =>
    obtain ⟨hmember, hrest⟩ := h
    cases member with
    | property property =>
      refine List.pairwise_cons.2 ⟨?_, ih hrest⟩
      intro second hsecond left right hleft hright hobject heq
      obtain ⟨head, declared⟩ := property
      subst hleft
      obtain ⟨-, -, hsound, hstop⟩ := hmember
      obtain ⟨hbehind, hsound'⟩ := type_of_membersSound hrest hsecond hright
      have hwithin : left.span.stop ≤ head.span.stop := hstop
      have hafter : head.span.stop ≤ right.span.start := hbehind
      -- one of the two is an object type, which takes up room
      have hroom : left.span.start < left.span.stop := by
        rcases hobject with hobject | hobject
        · exact room_of_object hsound hobject
        · rw [heq]
          exact room_of_object hsound' hobject
      rw [← heq] at hafter
      omega
    | index | mapped | other => exact ih hrest

/-- The properties of sound members are separate at any depth. -/
theorem separate_of_membersSound (h : MembersSound source start stop members) :
    Separate (propertiesOf members) := by
  induction members using body_induction generalizing start stop with
  | step members ih =>
    refine ⟨apart_of_membersSound h, fun inline hinline => ?_⟩
    obtain ⟨property, hmem, hproperty⟩ := List.mem_filterMap.1 hinline
    obtain ⟨span, hobject, rfl⟩ := Inline.eq_of_ofProperty? hproperty
    obtain ⟨-, hsound⟩ := type_of_membersSound h hmem rfl
    rw [hobject] at hsound
    exact ih inline hinline hsound.2.2

/-- Interfaces among sound statements are sound. -/
theorem sound_of_itemsSound {items : List Item} (h : ItemsSound source start items)
    {decl : InterfaceDecl} (hmem : decl ∈ items.filterMap Item.interface?) :
    ∃ behind, InterfaceDecl.Sound source behind decl := by
  obtain ⟨item, hitem, hinterface⟩ := List.mem_filterMap.1 hmem
  obtain ⟨before, -, hsound⟩ := h.of_mem hitem
  cases item with
  | interfaceItem found =>
    obtain rfl : found = decl := Option.some.inj hinterface
    exact ⟨before, hsound⟩
  | _ => cases hinterface

/-- The interfaces of sound statements are separate. -/
theorem separate_of_itemsSound {items : List Item} (h : ItemsSound source start items)
    {decl : InterfaceDecl} (hmem : decl ∈ items.filterMap Item.interface?) :
    Separate (propertiesOf decl.members) := by
  obtain ⟨before, hdecl⟩ := sound_of_itemsSound h hmem
  obtain ⟨first, second, -, -, hmembers⟩ := hdecl.parts
  exact separate_of_membersSound hmembers

end Separation

section Grounding

variable {first second : List Hoisted}

/-- Grounded interfaces behind grounded ones are grounded. -/
theorem Grounded.append (hfirst : Grounded first) (hsecond : Grounded second) :
    Grounded (first ++ second) := by
  intro before hoisted after heq inline hinline
  rcases List.append_eq_append_iff.1 heq with ⟨middle, rfl, hmiddle⟩ | ⟨middle, hmiddle, hafter⟩
  · have hmem := hsecond middle hoisted after hmiddle inline hinline
    exact List.mem_append_right _ hmem
  · cases middle with
    | nil =>
      rw [List.append_nil] at hmiddle
      subst hmiddle
      have hmem := hsecond [] hoisted after hafter.symm inline hinline
      simp at hmem
    | cons head rest =>
      obtain ⟨rfl, -⟩ := List.cons_eq_cons.1 hafter
      exact hfirst before hoisted rest hmiddle inline hinline

/-- An interface behind all interfaces that its properties refer to is
grounded if those are. -/
theorem Grounded.snoc (hfirst : Grounded first) {hoisted : Hoisted}
    (h : ∀ inline ∈ inlines hoisted.properties,
      (⟨Naming.extracted hoisted.name inline.head.key, propertiesOf inline.members⟩ : Hoisted) ∈
        first) : Grounded (first ++ [hoisted]) := by
  intro before found after heq inline hinline
  rcases List.append_eq_append_iff.1 heq with ⟨middle, rfl, hmiddle⟩ | ⟨middle, hmiddle, hafter⟩
  · cases middle with
    | nil =>
      obtain ⟨rfl, -⟩ := List.cons_eq_cons.1 hmiddle
      exact List.mem_append_left _ (h inline hinline)
    | cons head rest => simp at hmiddle
  · cases middle with
    | nil =>
      rw [List.append_nil] at hmiddle
      subst hmiddle
      obtain ⟨rfl, -⟩ := List.cons_eq_cons.1 hafter
      exact h inline hinline
    | cons head rest =>
      obtain ⟨rfl, -⟩ := List.cons_eq_cons.1 hafter
      exact hfirst before found rest hmiddle inline hinline

/-- Lists of interfaces are grounded together if each is. -/
theorem grounded_flatMap {list : List Inline} {hoist : Inline → List Hoisted}
    (h : ∀ inline ∈ list, Grounded (hoist inline)) : Grounded (list.flatMap hoist) := by
  induction list with
  | nil =>
    intro before hoisted after heq
    simp at heq
  | cons inline rest ih =>
    rw [List.flatMap_cons]
    exact (h inline List.mem_cons_self).append
      (ih fun other hother => h other (List.mem_cons_of_mem _ hother))

/-- The interfaces that come out of a body, and then the one with that body,
are grounded. -/
theorem grounded_body (name : Text) (members : List Member) :
    Grounded (hoistMembers name members ++ [⟨name, propertiesOf members⟩]) := by
  induction members using body_induction generalizing name with
  | step members ih =>
    rw [hoistMembers_eq]
    refine Grounded.snoc (grounded_flatMap fun inline hinline => ih inline hinline _) ?_
    intro inline hinline
    exact List.mem_flatMap.2 ⟨inline, hinline, List.mem_append_right _ List.mem_cons_self⟩

end Grounding

/-- The work that the interfaces of a file make is the number of interfaces
that the flattened file has. -/
theorem workload_ofDecl (file : SourceFile) :
    workload (file.interfaces.map Draft.ofDecl) = totalWeight file := by
  rw [totalWeight]
  induction file.interfaces with
  | nil => rfl
  | cons decl rest ih =>
    rw [List.map_cons, workload, ih, List.foldr_cons, membersWeight_eq]
    rfl

/-- Before anything is worked off, every interface of a file has its slot. -/
theorem complete_ofFile (file : SourceFile) :
    Complete (State.ofFile file).layout
      (([] : List Draft).length + (file.interfaces.map Draft.ofDecl).length) := by
  rw [Complete, State.ofFile, filterMap_layoutFrom, List.length_nil, Nat.zero_add, List.length_map,
    List.range_eq_range']

/-- A source that can be flattened becomes what the recursive description
prints. The queue is empty after as many rounds as there are interfaces, and
further rounds change nothing. The interfaces worked off are those of the
description, each once; none is printed with an object type in place, and each
stands behind all interfaces that it refers to for one. -/
theorem flatten_hoists {source text : Text} (h : flatten source = .ok text) :
    ∃ file state, SourceFile.read source = some file ∧
      (∀ extra, (State.ofFile file).flattenFrom 0 (totalWeight file + extra) = .ok state) ∧
      text = printFrom source 0 file.interfaces ∧
      (state.drafts.map Draft.hoisted).Perm (file.interfaces.flatMap hoistDecl) ∧
      (∀ draft ∈ state.drafts, draft.Retyped) ∧
      ∀ decl ∈ file.interfaces, Grounded (hoistDecl decl) := by
  unfold flatten at h
  split at h
  · cases h
  next file hread =>
  obtain ⟨rfl, hitems⟩ := SourceFile.read_sound hread
  have hstart : State.ofFile file =
      ⟨[] ++ file.interfaces.map Draft.ofDecl, (State.ofFile file).layout,
        file.declaredNames⟩ := rfl
  have hcount := workload_ofDecl file
  have hcomplete := complete_ofFile file
  have htodo : ∀ draft ∈ file.interfaces.map Draft.ofDecl,
      draft.renamed = [] ∧ Separate draft.properties := by
    intro draft hdraft
    obtain ⟨decl, hdecl, rfl⟩ := List.mem_map.1 hdraft
    exact ⟨rfl, separate_of_itemsSound hitems hdecl⟩
  cases hrun : (State.ofFile file).flattenFrom 0 (totalWeight file) with
  | error collision =>
    rw [SourceFile.flatten, hrun] at h
    cases h
  | ok state =>
    rw [SourceFile.flatten, hrun] at h
    obtain rfl : state.render file.text = text := Except.ok.inj h
    rw [hstart] at hrun
    obtain ⟨hperm, hretyped⟩ := flattenFrom_drafts _ hcount hcomplete htodo (by simp) hrun
    refine ⟨file, state, hread, fun extra => ?_, ?_, ?_, hretyped, fun decl _ =>
      grounded_body decl.name decl.members⟩
    · rw [hstart, ← hrun]
      exact flattenFrom_stable _ extra hcount hcomplete
    · rw [flattenFrom_render file.text _ hcount hcomplete htodo hrun]
      exact flatMap_layoutFrom file.text 0 [] file.interfaces
    · have hfamily : (file.interfaces.map Draft.ofDecl).flatMap Draft.family =
          file.interfaces.flatMap hoistDecl := by
        rw [List.flatMap_map]
        refine congrArg (fun hoist => List.flatMap hoist file.interfaces) (funext fun decl => ?_)
        rw [hoistDecl, hoistMembers_eq]
        rfl
      rw [← hfamily]
      exact hperm

/-- A nested object type and one beside it come out from the leaves to the
root. -/
theorem flatten_hoists_nested :
    let source : Text :=
      "interface A \x7b b: \x7b c: \x7b d: string \x7d \x7d; e: \x7b f: number \x7d \x7d"
    let text : Text :=
      "export interface A_properties_b_properties_c \x7b\n    d: string;\n\x7d\n\n" ++
      "export interface A_properties_b \x7b\n    c: A_properties_b_properties_c;\n\x7d\n\n" ++
      "export interface A_properties_e \x7b\n    f: number;\n\x7d\n\n" ++
      "interface A \x7b b: A_properties_b; e: A_properties_e \x7d"
    flatten source = .ok text ∧
      ∃ file, SourceFile.read source = some file ∧ text = printFrom source 0 file.interfaces := by
  intro source text
  have hoption : (flatten source).toOption = some text := by decide +kernel
  have h : flatten source = .ok text := by
    cases hflat : flatten source with
    | ok found =>
      rw [hflat] at hoption
      exact congrArg Except.ok (Option.some.inj hoption)
    | error refusal =>
      rw [hflat] at hoption
      cases hoption
  obtain ⟨file, state, hread, -, htext, -⟩ := flatten_hoists h
  exact ⟨h, file, hread, htext⟩

end InterfaceSchema.Flatten
