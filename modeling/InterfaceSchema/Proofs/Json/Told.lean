import InterfaceSchema.Proofs.Json.Trees
import Mathlib.Data.List.Forall2
import Mathlib.Data.List.Nodup
import Mathlib.Data.List.Perm.Basic

/-!
# Values that tell a tree

A value that tells a tree can be passed over, and all of it can be used unless a number is
too great or it is nested too deeply. Sorting the keys leaves the tree as it is if no key
is repeated.
-/

namespace InterfaceSchema.Json

open scoped List

variable {lenient : Bool} {tree : Tree} {value : Value} {items : List Tree} {values : List Value}
  {members : List TreeMember} {entries matched : List Entry} {name : Text → Text}

/-- What holds of a tree as soon as it holds of its items and of the values of its members
holds of every tree. -/
@[elab_as_elim]
theorem Tree.induct {motive : Tree → Prop} (null : motive .null)
    (flag : ∀ value, motive (.flag value)) (number : ∀ value, motive (.number value))
    (text : ∀ value, motive (.text value))
    (list : ∀ items, (∀ item ∈ items, motive item) → motive (.list items))
    (object : ∀ members, (∀ member ∈ members, motive member.value) → motive (.object members)) :
    ∀ tree, motive tree
  | .null => null
  | .flag value => flag value
  | .number value => number value
  | .text value => text value
  | .list items => list items fun item _ => Tree.induct null flag number text list object item
  | .object members => object members fun member _ =>
    Tree.induct null flag number text list object member.value
termination_by tree => sizeOf tree
decreasing_by
  · next h =>
    have := List.sizeOf_lt_of_mem h
    simp only [Tree.list.sizeOf_spec]
    omega
  · next h =>
    have hmember := List.sizeOf_lt_of_mem h
    obtain ⟨key, value⟩ := member
    simp only [TreeMember.mk.sizeOf_spec, Tree.object.sizeOf_spec] at hmember ⊢
    omega

section Parts

/-- The entry holds the member. -/
def TellsMember (lenient : Bool) (member : TreeMember) (entry : Entry) : Prop :=
  entry.key = .ok member.key ∧ Tells lenient member.value entry.value

/-- Items are told one by one. -/
theorem tellsItems_iff : TellsItems lenient items values ↔
    List.Forall₂ (Tells lenient) items values := by
  induction items generalizing values with
  | nil => simp [TellsItems]
  | cons item items ih =>
    simp only [TellsItems, List.forall₂_cons_left_iff, ih]
    constructor
    · rintro ⟨value, rest, rfl, hvalue, hrest⟩
      exact ⟨value, rest, hvalue, hrest, rfl⟩
    · rintro ⟨value, rest, hvalue, hrest, rfl⟩
      exact ⟨value, rest, rfl, hvalue, hrest⟩

/-- Members are told one by one. -/
theorem tellsMembers_iff : TellsMembers lenient members entries ↔
    List.Forall₂ (TellsMember lenient) members entries := by
  induction members generalizing entries with
  | nil => simp [TellsMembers]
  | cons member members ih =>
    obtain ⟨key, tree⟩ := member
    simp only [TellsMembers, List.forall₂_cons_left_iff, ih]
    constructor
    · rintro ⟨afterKey, value, rest, rfl, hvalue, hrest⟩
      exact ⟨_, rest, ⟨rfl, hvalue⟩, hrest, rfl⟩
    · rintro ⟨⟨key, afterKey, value⟩, rest, ⟨rfl, hvalue⟩, hrest, rfl⟩
      exact ⟨afterKey, value, rest, rfl, hvalue, hrest⟩

/-- A table tells an object if its entries hold the members in some order. -/
theorem tells_object {spelled : List TreeMember} (horder : members.Perm spelled)
    (h : TellsMembers lenient spelled entries) (span : Span) :
    Tells lenient (.object members) (.table entries span) := by
  obtain ⟨matched, hmatched, hperm⟩ := List.perm_comp_forall₂ horder (tellsMembers_iff.mp h)
  exact ⟨entries, span, matched, rfl, hperm, tellsMembers_iff.mpr hmatched⟩

/-- Everything on one side of a relation between lists is related to something on the
other side. -/
theorem exists_of_forall₂ {α β : Type} {R : α → β → Prop} {as : List α} {bs : List β}
    (h : List.Forall₂ R as bs) {b : β} (hb : b ∈ bs) : ∃ a ∈ as, R a b := by
  induction h with
  | nil => cases hb
  | cons hfirst _ ih =>
    rcases List.mem_cons.mp hb with rfl | hb
    · exact ⟨_, by simp, hfirst⟩
    · obtain ⟨a, ha, hR⟩ := ih hb
      exact ⟨a, List.mem_cons_of_mem _ ha, hR⟩

/-- The keys of entries are those of the members that they hold. -/
theorem map_key_of_tellsMembers (h : TellsMembers lenient members entries) :
    entries.map Entry.key = members.map fun member => .ok member.key := by
  rw [tellsMembers_iff] at h
  induction h with
  | nil => rfl
  | cons hfirst _ ih => rw [List.map_cons, List.map_cons, ih, hfirst.1]

/-- No key is repeated among the entries if none is among the members. -/
theorem nodup_key_of_tellsMembers (h : TellsMembers lenient members matched)
    (hperm : matched.Perm entries) (hkeys : (members.map TreeMember.key).Nodup) :
    (entries.map Entry.key).Nodup := by
  rw [← (hperm.map Entry.key).nodup_iff, map_key_of_tellsMembers h]
  simpa [Function.comp_def] using hkeys.map (fun _ _ => Except.ok.inj :
    Function.Injective (Except.ok : Text → Except Fault Text))

/-- An item is not nested more deeply than all of them. -/
theorem Tree.depth_le_depthOfItems {item : Tree} (h : item ∈ items) :
    item.depth ≤ depthOfItems items := by
  induction items with
  | nil => cases h
  | cons first items ih =>
    rw [depthOfItems]
    rcases List.mem_cons.mp h with rfl | h
    · exact le_max_left _ _
    · exact (ih h).trans (le_max_right _ _)

/-- The value of a member is not nested more deeply than all of them. -/
theorem Tree.depth_le_depthOfMembers {member : TreeMember} (h : member ∈ members) :
    member.value.depth ≤ depthOfMembers members := by
  induction members with
  | nil => cases h
  | cons first members ih =>
    obtain ⟨key, value⟩ := first
    rw [depthOfMembers]
    rcases List.mem_cons.mp h with rfl | h
    · exact le_max_left _ _
    · exact (ih h).trans (le_max_right _ _)

end Parts

section Using

/-- Items that can be passed over one by one can be passed over together. -/
theorem skipItems_eq_ok (h : ∀ value ∈ values, value.skip = .ok ()) :
    Value.skipItems values = .ok () := by
  induction values with
  | nil => rfl
  | cons value values ih =>
    simp only [List.forall_mem_cons] at h
    rw [Value.skipItems, h.1]
    exact ih h.2

/-- Entries that can be passed over one by one can be passed over together. -/
theorem skipEntries_eq_ok (h : ∀ entry ∈ entries, entry.value.skip = .ok ()) :
    Value.skipEntries entries = .ok () := by
  induction entries with
  | nil => rfl
  | cons entry entries ih =>
    obtain ⟨key, afterKey, value⟩ := entry
    simp only [List.forall_mem_cons] at h
    rw [Value.skipEntries, h.1]
    exact ih h.2

/-- Items that can be used one by one can be used together. -/
theorem useItems_eq_ok {depth : Nat} (h : ∀ value ∈ values, value.useAll depth = .ok ()) :
    Value.useItems depth values = .ok () := by
  induction values with
  | nil => rfl
  | cons value values ih =>
    simp only [List.forall_mem_cons] at h
    rw [Value.useItems, h.1]
    exact ih h.2

/-- Entries that can be used one by one can be used together. -/
theorem useEntries_eq_ok {depth : Nat}
    (h : ∀ entry ∈ entries, (∃ key, entry.key = .ok key) ∧ entry.value.useAll depth = .ok ()) :
    Value.useEntries depth entries = .ok () := by
  induction entries with
  | nil => rfl
  | cons entry entries ih =>
    obtain ⟨key, afterKey, value⟩ := entry
    simp only [List.forall_mem_cons] at h
    obtain ⟨⟨⟨key, rfl⟩, hvalue⟩, hrest⟩ := h
    rw [Value.useEntries]
    simp only [bind, Except.bind, hvalue]
    exact ih hrest

/-- A value that tells a tree can be passed over. -/
theorem Tells.skip (h : Tells lenient tree value) : value.skip = .ok () := by
  induction tree using Tree.induct generalizing value with
  | null | flag | text =>
    obtain ⟨span, rfl⟩ := h
    rfl
  | number =>
    obtain ⟨n, span, rfl⟩ | ⟨shown, span, rfl⟩ | ⟨-, fault, span, rfl⟩ := h <;> rfl
  | list items ih =>
    obtain ⟨values, span, rfl, h⟩ := h
    refine skipItems_eq_ok fun value hvalue => ?_
    obtain ⟨item, hitem, htells⟩ := exists_of_forall₂ (tellsItems_iff.mp h) hvalue
    exact ih item hitem htells
  | object members ih =>
    obtain ⟨entries, span, matched, rfl, hperm, h⟩ := h
    refine skipEntries_eq_ok fun entry hentry => ?_
    obtain ⟨member, hmember, htells⟩ :=
      exists_of_forall₂ (tellsMembers_iff.mp h) (hperm.mem_iff.mpr hentry)
    exact ih member hmember htells.2

/-- All of a value can be used that tells a tree in range. -/
theorem Tells.useAll {depth : Nat} (h : Tells false tree value) (hdepth : tree.depth ≤ depth) :
    value.useAll depth = .ok () := by
  induction tree using Tree.induct generalizing value depth with
  | null | flag | text =>
    obtain ⟨span, rfl⟩ := h
    rfl
  | number =>
    obtain ⟨n, span, rfl⟩ | ⟨shown, span, rfl⟩ | ⟨h, -⟩ := h
    · rfl
    · rfl
    · cases h
  | list items ih =>
    obtain ⟨values, span, rfl, h⟩ := h
    rw [Tree.depth] at hdepth
    obtain ⟨left, rfl⟩ : ∃ left, depth = left + 1 := ⟨depth - 1, by omega⟩
    refine useItems_eq_ok fun value hvalue => ?_
    obtain ⟨item, hitem, htells⟩ := exists_of_forall₂ (tellsItems_iff.mp h) hvalue
    have := Tree.depth_le_depthOfItems hitem
    exact ih item hitem htells (by omega)
  | object members ih =>
    obtain ⟨entries, span, matched, rfl, hperm, h⟩ := h
    rw [Tree.depth] at hdepth
    obtain ⟨left, rfl⟩ : ∃ left, depth = left + 1 := ⟨depth - 1, by omega⟩
    refine useEntries_eq_ok fun entry hentry => ?_
    obtain ⟨member, hmember, htells⟩ :=
      exists_of_forall₂ (tellsMembers_iff.mp h) (hperm.mem_iff.mpr hentry)
    have := Tree.depth_le_depthOfMembers hmember
    exact ⟨⟨_, htells.1⟩, ih member hmember htells.2 (by omega)⟩

end Using

section Sorting

/-- Only equal keys are taken to be the same. -/
theorem sameKey_eq_false {a b : Except Fault Text} (h : a ≠ b) : Entry.sameKey a b = false := by
  cases a <;> cases b <;> simp_all [Entry.sameKey]

/-- An entry with a new key is added. -/
theorem insert_perm {entry : Entry} (h : entry.key ∉ entries.map Entry.key) :
    (Entry.insert entry entries).Perm (entry :: entries) := by
  induction entries with
  | nil => exact .refl _
  | cons head rest ih =>
    simp only [List.map_cons, List.mem_cons, not_or] at h
    simp only [Entry.insert, sameKey_eq_false h.1, Bool.false_eq_true, if_false]
    split
    · exact .refl _
    · exact ((ih h.2).cons head).trans (.swap _ _ _)

/-- The entry with its value sorted. -/
def sortedEntry (entry : Entry) : Entry := { entry with value := entry.value.sorted }

/-- If no key is repeated, sorting keeps all entries. -/
theorem sortedEntries_perm (before : List Entry) (h : ((before ++ entries).map Entry.key).Nodup) :
    (Value.sortedEntries before entries).Perm (before ++ entries.map sortedEntry) := by
  induction entries generalizing before with
  | nil => simp [Value.sortedEntries]
  | cons entry entries ih =>
    obtain ⟨key, afterKey, value⟩ := entry
    rw [List.map_append, List.map_cons, List.nodup_middle] at h
    have hinsert : (Entry.insert ⟨key, afterKey, value.sorted⟩ before).Perm
        (⟨key, afterKey, value.sorted⟩ :: before) :=
      insert_perm fun hkey => (List.nodup_cons.mp h).1 (List.mem_append_left _ hkey)
    have hkeys := ((hinsert.append_right entries).map Entry.key).nodup_iff.mpr (by simpa using h)
    calc Value.sortedEntries before (⟨key, afterKey, value⟩ :: entries)
      _ = Value.sortedEntries (Entry.insert ⟨key, afterKey, value.sorted⟩ before) entries := rfl
      _ ~ Entry.insert ⟨key, afterKey, value.sorted⟩ before ++ entries.map sortedEntry := ih _ hkeys
      _ ~ (⟨key, afterKey, value.sorted⟩ :: before) ++ entries.map sortedEntry :=
        hinsert.append_right _
      _ ~ before ++ (⟨key, afterKey, value⟩ :: entries).map sortedEntry := List.perm_middle.symm

/-- Sorting the items is sorting each of them. -/
theorem sortedItems_eq : Value.sortedItems values = values.map Value.sorted := by
  induction values with
  | nil => rfl
  | cons value values ih => rw [Value.sortedItems, ih, List.map_cons]

/-- A value still tells its tree when its keys are sorted. -/
theorem Tells.sorted (hdistinct : tree.DistinctBy name) (h : Tells lenient tree value) :
    Tells lenient tree value.sorted := by
  induction tree using Tree.induct generalizing value with
  | null | flag | text =>
    obtain ⟨span, rfl⟩ := h
    exact ⟨span, rfl⟩
  | number =>
    obtain ⟨n, span, rfl⟩ | ⟨shown, span, rfl⟩ | ⟨hlenient, fault, span, rfl⟩ := h
    · exact .inl ⟨n, span, rfl⟩
    · exact .inr (.inl ⟨shown, span, rfl⟩)
    · exact .inr (.inr ⟨hlenient, fault, span, rfl⟩)
  | list items ih =>
    obtain ⟨values, span, rfl, h⟩ := h
    refine ⟨_, span, rfl, ?_⟩
    rw [Tree.distinctBy_list] at hdistinct
    rw [tellsItems_iff] at h ⊢
    rw [sortedItems_eq, List.forall₂_map_right_iff]
    have hsorted : ∀ item ∈ items, ∀ value, Tells lenient item value →
        Tells lenient item value.sorted :=
      fun item hitem value htells => ih item hitem (hdistinct item hitem) htells
    exact ((List.forall₂_and_left _ _).mpr ⟨hsorted, h⟩).imp fun item value h => h.1 value h.2
  | object members ih =>
    obtain ⟨entries, span, matched, rfl, hperm, h⟩ := h
    rw [Tree.distinctBy_object] at hdistinct
    have hkeys := nodup_key_of_tellsMembers h hperm
      (.of_map name (by rw [List.map_map]; exact hdistinct.1))
    have hentries := sortedEntries_perm [] hkeys
    refine ⟨_, span, matched.map sortedEntry, rfl,
      (hperm.map sortedEntry).trans hentries.symm, ?_⟩
    rw [tellsMembers_iff] at h ⊢
    rw [List.forall₂_map_right_iff]
    have hsorted : ∀ member ∈ members, ∀ entry, TellsMember lenient member entry →
        TellsMember lenient member (sortedEntry entry) := fun member hmember entry htells =>
      ⟨htells.1, ih member hmember (hdistinct.2 member hmember) htells.2⟩
    exact ((List.forall₂_and_left _ _).mpr ⟨hsorted, h⟩).imp fun member entry h => h.1 entry h.2

end Sorting

end InterfaceSchema.Json
