import InterfaceSchema.Proofs.Dialect.Declaring
import Mathlib.Logic.Relation

/-!
# What a schema model reads

A schema is made of a type by reading its parts, but not all of them: the
arguments of a generic name that is not known are passed over, and so are methods
and index signatures beside other members. A model is refused exactly if
something that has no schema is read, and the first such place in reading order is
reported. The places are listed here without stopping at any of them.
-/

namespace InterfaceSchema

namespace Schema

open TypeBox (isRecord bind_eq_ok isRecord_eq)

/-- The types of the properties among the members that have one, in order. -/
def annotations (members : List Member) : List TypeExpr :=
  (propertiesOf members).filterMap Property.type

/-- The types of the keys and values of an index signature. -/
def indexTypes : Member → List TypeExpr
  | .index key value _ _ => [key, value]
  | .property _ | .mapped _ | .other _ => []

/-- The types that are read for a body, in reading order: those of its properties
and, without any property, those of an index signature that is the only one. -/
def bodyTypes (members : List Member) : List TypeExpr :=
  annotations members ++ if isRecord members then members.flatMap indexTypes else []

/-- The types that are read for a type, in reading order. -/
def partsRead : TypeExpr → List TypeExpr
  | .reference name [item] _ => if name = "Array" ∨ name = "ReadonlyArray" then [item] else []
  | .reference name [key, value] _ => if name = "Record" then [key, value] else []
  | .array item _ | .paren item _ => [item]
  | .tuple parts _ | .union parts _ | .intersection parts _ => parts
  | .object members _ => bodyTypes members
  | .reference .. | .keyword .. | .literal .. | .unsupported _ => []

/-- One type is read, at some depth, for another. -/
def Reaches : TypeExpr → TypeExpr → Prop :=
  Relation.ReflTransGen fun whole part => part ∈ partsRead whole

/-- A type that is read for a body is smaller than the body. -/
theorem sizeOf_lt_of_mem_bodyTypes {members : List Member} {part : TypeExpr}
    (h : part ∈ bodyTypes members) : sizeOf part < sizeOf members := by
  rcases List.mem_append.1 h with h | h
  · obtain ⟨property, hproperty, htype⟩ := List.mem_filterMap.1 h
    obtain ⟨member, hmember, hfound⟩ := List.mem_filterMap.1 hproperty
    have hlt := List.sizeOf_lt_of_mem hmember
    obtain ⟨head, type⟩ := property
    obtain rfl : type = some part := htype
    cases member with
    | property found =>
      obtain rfl : found = ⟨head, some part⟩ := Option.some.inj hfound
      simp only [Member.property.sizeOf_spec, Property.mk.sizeOf_spec,
        Option.some.sizeOf_spec] at hlt
      omega
    | index | mapped | other => cases hfound
  · split at h
    · obtain ⟨member, hmember, hpart⟩ := List.mem_flatMap.1 h
      have hlt := List.sizeOf_lt_of_mem hmember
      cases member with
      | index key value readonly span =>
        simp only [Member.index.sizeOf_spec] at hlt
        rcases List.mem_pair.1 hpart with rfl | rfl <;> omega
      | property | mapped | other => cases hpart
    · cases h

/-- A type that is read for another one is smaller. -/
theorem sizeOf_lt_of_mem_partsRead {whole part : TypeExpr} (h : part ∈ partsRead whole) :
    sizeOf part < sizeOf whole := by
  unfold partsRead at h
  split at h
  · split at h
    · obtain rfl := List.mem_singleton.1 h
      simp only [TypeExpr.reference.sizeOf_spec, List.cons.sizeOf_spec]
      omega
    · cases h
  · split at h
    · rcases List.mem_pair.1 h with rfl | rfl <;>
        simp only [TypeExpr.reference.sizeOf_spec, List.cons.sizeOf_spec] <;> omega
    · cases h
  · obtain rfl := List.mem_singleton.1 h
    simp only [TypeExpr.array.sizeOf_spec]
    omega
  · obtain rfl := List.mem_singleton.1 h
    simp only [TypeExpr.paren.sizeOf_spec]
    omega
  · have hlt := List.sizeOf_lt_of_mem h
    simp only [TypeExpr.tuple.sizeOf_spec]
    omega
  · have hlt := List.sizeOf_lt_of_mem h
    simp only [TypeExpr.union.sizeOf_spec]
    omega
  · have hlt := List.sizeOf_lt_of_mem h
    simp only [TypeExpr.intersection.sizeOf_spec]
    omega
  · have hlt := sizeOf_lt_of_mem_bodyTypes h
    simp only [TypeExpr.object.sizeOf_spec]
    omega
  all_goals cases h

/-- What has no schema in a type, in reading order. -/
def refusals (type : TypeExpr) : List Unsupported :=
  match type with
  | .unsupported span => [.type span]
  | whole => (partsRead whole).attach.flatMap fun part => refusals part.1
termination_by sizeOf type
decreasing_by exact sizeOf_lt_of_mem_partsRead part.2

/-- A type without a schema is refused itself. -/
theorem refusals_unsupported (span : Span) : refusals (.unsupported span) = [.type span] := by
  rw [refusals]

/-- Any other type is refused for the types that are read for it. -/
theorem refusals_eq {type : TypeExpr} (h : ∀ span, type ≠ .unsupported span) :
    refusals type = (partsRead type).flatMap refusals := by
  rw [refusals]
  · exact (List.flatMap_subtype fun _ _ => rfl).trans (by rw [List.unattach_attach])
  · exact h

/-- A type has no schema for itself or for a type that is read for it. -/
theorem type_mem_refusals_iff {type : TypeExpr} {span : Span} :
    .type span ∈ refusals type ↔ Reaches type (.unsupported span) := by
  constructor
  · intro h
    fun_induction refusals type with
    | case1 found =>
      cases List.mem_singleton.1 h
      exact .refl
    | case2 whole _ ih =>
      obtain ⟨part, -, hpart⟩ := List.mem_flatMap.1 h
      exact .head part.2 (ih part hpart)
  · intro h
    induction h using Relation.ReflTransGen.head_induction_on with
    | refl =>
      rw [refusals_unsupported]
      exact List.mem_singleton_self _
    | head hpart _ ih =>
      rw [refusals_eq]
      · exact List.mem_flatMap.2 ⟨_, hpart, ih⟩
      · rintro found rfl
        cases hpart

/-- What is refused in a type is a type. -/
theorem exists_of_mem_refusals {type : TypeExpr} {reason : Unsupported}
    (h : reason ∈ refusals type) : ∃ span, reason = .type span := by
  fun_induction refusals type with
  | case1 span => exact ⟨span, List.mem_singleton.1 h⟩
  | case2 whole _ ih =>
    obtain ⟨part, -, hpart⟩ := List.mem_flatMap.1 h
    exact ih part hpart

/-- The translation fails for the first of the reasons, and succeeds if there is
none. -/
def FailsFirst {α : Type} (reasons : List Unsupported) (result : Except Unsupported α) : Prop :=
  match reasons.head? with
  | some reason => result = .error reason
  | none => ∃ value, result = .ok value

namespace FailsFirst

variable {α β : Type} {reasons others : List Unsupported} {first : Except Unsupported α}
  {next : α → Except Unsupported β}

/-- Without a reason nothing fails. -/
theorem ok (value : α) : FailsFirst [] (.ok value) := ⟨value, rfl⟩

/-- A translation with steps fails for the reasons of its first step and, if there is
none, for those of the next one. -/
theorem bind (hfirst : FailsFirst reasons first)
    (hnext : ∀ value, first = .ok value → FailsFirst others (next value)) :
    FailsFirst (reasons ++ others) (first >>= next) := by
  cases reasons with
  | nil =>
    obtain ⟨value, rfl⟩ := hfirst
    exact hnext value rfl
  | cons reason rest =>
    obtain rfl : first = .error reason := hfirst
    rfl

/-- A step that cannot fail changes nothing. -/
theorem map (hfirst : FailsFirst reasons first) (f : α → β) :
    FailsFirst reasons (first >>= fun value => .ok (f value)) := by
  have h := hfirst.bind fun value _ => ok (f value)
  rwa [List.append_nil] at h

/-- The reason for a failure is the first one. -/
theorem eq_error_iff (h : FailsFirst reasons first) {reason : Unsupported} :
    first = .error reason ↔ reasons.head? = some reason := by
  rw [FailsFirst] at h
  split at h
  · next found hfound =>
    rw [h, hfound, Except.error.injEq, Option.some.injEq]
  · next hnone =>
    obtain ⟨value, rfl⟩ := h
    rw [hnone]
    exact ⟨fun h => (nomatch h), fun h => (nomatch h)⟩

end FailsFirst

/-- There is a field for each property. -/
theorem length_fieldsOf {members : List Member} {fields : List Field}
    (h : fieldsOf members = .ok fields) : fields.length = (propertiesOf members).length := by
  induction members generalizing fields with
  | nil =>
    cases h
    rfl
  | cons member rest ih =>
    rw [propertiesOf, List.filterMap_cons]
    cases member with
    | property property =>
      obtain ⟨head, type⟩ := property
      cases type with
      | none =>
        obtain ⟨others, hothers, h⟩ := bind_eq_ok.1 h
        cases h
        exact congrArg Nat.succ (ih hothers)
      | some type =>
        obtain ⟨schema, -, h⟩ := bind_eq_ok.1 h
        obtain ⟨others, hothers, h⟩ := bind_eq_ok.1 h
        cases h
        exact congrArg Nat.succ (ih hothers)
    | index | mapped | other => exact ih h

/-- Without an index signature there are no types of one. -/
theorem flatMap_indexTypes_eq_nil {members : List Member} (h : members.countP isIndex = 0) :
    members.flatMap indexTypes = [] := by
  refine List.flatMap_eq_nil_iff.2 fun member hmember => ?_
  have hother := List.countP_eq_zero.1 h member hmember
  cases member with
  | index => exact absurd rfl hother
  | property | mapped | other => rfl

mutual

/-- A type fails for the first type without a schema that is read for it. -/
theorem failsFirst_ofType : (type : TypeExpr) → FailsFirst (refusals type) (ofType type)
  | .keyword _ _ | .literal _ _ => by
    rw [refusals_eq (by simp), ofType]
    exact .ok _
  | .unsupported span => by
    rw [refusals_unsupported]
    rfl
  | .reference name [] span => by
    rw [refusals_eq (by simp), ofType]
    exact .ok _
  | .reference name [item] span => by
    rw [refusals_eq (by simp), ofType, partsRead]
    split
    · rw [List.flatMap_singleton]
      exact (failsFirst_ofType item).map _
    · exact .ok _
  | .reference name [key, value] span => by
    rw [refusals_eq (by simp), ofType, partsRead]
    split
    · rw [List.flatMap_cons, List.flatMap_singleton]
      exact (failsFirst_ofType key).bind fun _ _ => (failsFirst_ofType value).map _
    · exact .ok _
  | .reference name (_ :: _ :: _ :: _) span => by
    -- no name is known that takes three arguments
    rw [refusals_eq (by simp)]
    exact .ok _
  | .array inner _ => by
    rw [refusals_eq (by simp), ofType, partsRead, List.flatMap_singleton]
    exact (failsFirst_ofType inner).map _
  | .tuple parts _ | .union parts _ | .intersection parts _ => by
    rw [refusals_eq (by simp), ofType, partsRead]
    exact (failsFirst_ofTypes parts).map _
  | .object members _ => by
    rw [refusals_eq (by simp), ofType, partsRead, bodyTypes, List.flatMap_append]
    refine (failsFirst_fieldsOf members).bind fun fields hfields => ?_
    rw [isRecord_eq (length_fieldsOf hfields)]
    split
    · next hrecord =>
      exact failsFirst_recordOf members (eq_of_beq (Bool.and_eq_true_iff.1 hrecord).2)
    · exact .ok _
  | .paren inner _ => by
    rw [refusals_eq (by simp), ofType, partsRead, List.flatMap_singleton]
    exact failsFirst_ofType inner

/-- Types fail for the first of what is refused in them. -/
theorem failsFirst_ofTypes :
    (types : List TypeExpr) → FailsFirst (types.flatMap refusals) (ofTypes types)
  | [] => by
    rw [ofTypes]
    exact .ok _
  | type :: rest => by
    rw [ofTypes, List.flatMap_cons]
    exact (failsFirst_ofType type).bind fun _ _ => (failsFirst_ofTypes rest).map _

/-- Properties fail for the first of what is refused in their types. -/
theorem failsFirst_fieldsOf : (members : List Member) →
    FailsFirst ((annotations members).flatMap refusals) (fieldsOf members)
  | [] => by
    rw [fieldsOf]
    exact .ok _
  | .property ⟨head, some type⟩ :: rest => by
    rw [fieldsOf]
    exact (failsFirst_ofType type).bind fun _ _ => (failsFirst_fieldsOf rest).map _
  | .property ⟨head, none⟩ :: rest => by
    rw [fieldsOf]
    exact (failsFirst_fieldsOf rest).map _
  | .index _ _ _ _ :: rest | .mapped _ :: rest | .other _ :: rest => by
    simp only [fieldsOf]
    exact failsFirst_fieldsOf rest

/-- A record fails for the first of what is refused in its keys and values. -/
theorem failsFirst_recordOf : (members : List Member) → members.countP isIndex = 1 →
    FailsFirst ((members.flatMap indexTypes).flatMap refusals) (recordOf members)
  | [], h => nomatch h
  | .index key value _ _ :: rest, h => by
    rw [List.countP_cons_of_pos rfl] at h
    have hrest : rest.flatMap indexTypes = [] := flatMap_indexTypes_eq_nil (Nat.succ.inj h)
    rw [recordOf, List.flatMap_cons, hrest, indexTypes, List.append_nil, List.flatMap_cons,
      List.flatMap_singleton]
    exact (failsFirst_ofType key).bind fun _ _ => (failsFirst_ofType value).map _
  | .property _ :: rest, h | .mapped _ :: rest, h | .other _ :: rest, h => by
    simp only [recordOf]
    exact failsFirst_recordOf rest h

end

/-- A body fails as the object type does. -/
theorem failsFirst_ofMembers (members : List Member) :
    FailsFirst ((bodyTypes members).flatMap refusals) (ofMembers members) := by
  have h := failsFirst_ofType (.object members ⟨0, 0⟩)
  rwa [refusals_eq (by simp)] at h

end Schema

namespace Item

open Schema

/-- The type parameters of an interface or alias, as a reason to refuse it. -/
def parameters? : Item → Option Unsupported
  | .interfaceItem decl => decl.parameters.map .genericInterface
  | .aliasItem decl => decl.parameters.map .genericAlias
  | .importItem _ | .otherItem _ => none

/-- The types that a statement is read for, in reading order: the types that an
interface extends before those of its body, and the type of an alias. -/
def roots : Item → List TypeExpr
  | .interfaceItem decl => decl.bases ++ bodyTypes decl.members
  | .aliasItem decl => [decl.type]
  | .importItem _ | .otherItem _ => []

/-- What is refused in a statement, in reading order. -/
def refusals (item : Item) : List Unsupported :=
  item.parameters?.toList ++ item.roots.flatMap Schema.refusals

end Item

namespace Schema

/-- An interface fails for its type parameters, and then for what is refused in the
types that it extends and in its body. -/
theorem failsFirst_ofInterface (decl : InterfaceDecl) :
    FailsFirst (Item.interfaceItem decl).refusals (ofInterface decl) := by
  rw [Item.refusals, Item.parameters?, Item.roots, ofInterface]
  cases decl.parameters with
  | some span => rfl
  | none =>
    rw [List.flatMap_append]
    refine (failsFirst_ofTypes decl.bases).bind fun bases _ => ?_
    rw [← List.append_nil (List.flatMap _ (bodyTypes decl.members))]
    refine (failsFirst_ofMembers decl.members).bind fun body _ => ?_
    -- whatever the body is, there is a declaration for it
    cases body <;> exact .ok _

/-- An alias fails for its type parameters, and then for what is refused in its
type. -/
theorem failsFirst_ofAlias (decl : AliasDecl) :
    FailsFirst (Item.aliasItem decl).refusals (ofAlias decl) := by
  rw [Item.refusals, Item.parameters?, Item.roots, ofAlias]
  cases decl.parameters with
  | some span => rfl
  | none =>
    rw [List.flatMap_singleton]
    exact (failsFirst_ofType decl.type).map _

/-- Statements fail for the first of what is refused in them. -/
theorem failsFirst_ofItems (items : List Item) :
    FailsFirst (items.flatMap Item.refusals) (ofItems items) := by
  induction items with
  | nil => exact .ok _
  | cons item rest ih =>
    rw [List.flatMap_cons]
    cases item with
    | interfaceItem decl => exact (failsFirst_ofInterface decl).bind fun _ _ => ih.map _
    | aliasItem decl => exact (failsFirst_ofAlias decl).bind fun _ _ => ih.map _
    | importItem | otherItem => exact ih

/-- A source file fails for the first of what is refused in its statements. -/
theorem failsFirst_ofFile (file : SourceFile) :
    FailsFirst (file.items.flatMap Item.refusals) (Model.ofFile file) :=
  (failsFirst_ofItems file.items).map _

end Schema

open Schema

/-- Something is refused in a statement exactly if it has type parameters or reads a
type without a schema. -/
theorem Item.exists_mem_refusals_iff (item : Item) : (∃ reason, reason ∈ item.refusals) ↔
    item.parameters?.isSome ∨ ∃ root ∈ item.roots, ∃ span, Reaches root (.unsupported span) := by
  constructor
  · rintro ⟨reason, h⟩
    rcases List.mem_append.1 h with h | h
    · rw [Option.mem_toList] at h
      exact .inl (Option.isSome_iff_exists.2 ⟨reason, h⟩)
    · obtain ⟨root, hroot, h⟩ := List.mem_flatMap.1 h
      obtain ⟨span, rfl⟩ := exists_of_mem_refusals h
      exact .inr ⟨root, hroot, span, type_mem_refusals_iff.1 h⟩
  · rintro (h | ⟨root, hroot, span, hspan⟩)
    · obtain ⟨reason, h⟩ := Option.isSome_iff_exists.1 h
      exact ⟨reason, List.mem_append_left _ (Option.mem_toList.2 h)⟩
    · exact ⟨.type span, List.mem_append_right _
        (List.mem_flatMap.2 ⟨root, hroot, type_mem_refusals_iff.2 hspan⟩)⟩

/-- A schema model is refused exactly if a declaration of the file has type parameters
or reads, at any depth, a type without a schema. The reason that is given is the first
one in reading order. Otherwise the model has one declaration for each interface and
alias, in order. -/
theorem Model.ofFile_refuses_first (file : SourceFile) :
    ((∃ reason, Model.ofFile file = .error reason) ↔
      ∃ item ∈ file.items, item.parameters?.isSome ∨
        ∃ root ∈ item.roots, ∃ span, Reaches root (.unsupported span)) ∧
    (∀ reason, Model.ofFile file = .error reason ↔
      (file.items.flatMap Item.refusals).head? = some reason) ∧
    ∀ model, Model.ofFile file = .ok model →
      model.declarations.map Declaration.name = file.declaredNames := by
  have hfails := failsFirst_ofFile file
  refine ⟨?_, fun reason => hfails.eq_error_iff, fun model h => ?_⟩
  · calc (∃ reason, Model.ofFile file = .error reason)
      _ ↔ ∃ reason, (file.items.flatMap Item.refusals).head? = some reason :=
        exists_congr fun _ => hfails.eq_error_iff
      _ ↔ ∃ reason, reason ∈ file.items.flatMap Item.refusals := by
        rw [← Option.isSome_iff_exists, List.isSome_head?]
        exact ⟨List.exists_mem_of_ne_nil _, fun ⟨_, h⟩ => List.ne_nil_of_mem h⟩
      _ ↔ ∃ item ∈ file.items, ∃ reason, reason ∈ item.refusals := by
        simp only [List.mem_flatMap]
        tauto
      _ ↔ _ := by simp only [Item.exists_mem_refusals_iff]
  · obtain ⟨declarations, hdeclarations, h⟩ := TypeBox.bind_eq_ok.1 h
    cases h
    exact names_ofItems hdeclarations

end InterfaceSchema
