import InterfaceSchema.Proofs.Flatten.Outcome
import InterfaceSchema.Proofs.Flatten.Preservation
import InterfaceSchema.Proofs.Syntax.Declared

/-!
# Names of extracted interfaces

The name of an extracted interface ends with the key of a property as it is spelled,
less its quotes. It is a word if the name around it is one and the key is a run of
letters, and otherwise no source declares it. So a flattened file can be read as it was
meant only if all keys of properties with object types are such runs, as words are.
-/

namespace InterfaceSchema

/-- The key of a property that is named by a word is a run. -/
theorem PropertyHead.isRun_key {head : PropertyHead} (h : IsWord head.name) :
    Scan.IsRun head.key := by
  obtain ⟨c, more, hname, hstart⟩ := h.exists_cons
  have hquote : ¬(c = '"' ∨ c = '\'') := by
    rintro (rfl | rfl) <;> revert hstart <;> decide
  have hkey : head.key = head.name := by
    rw [PropertyHead.key, Text.stripQuotes, hname]
    split
    · next first last hfirst _ =>
      obtain rfl : c = first := Option.some.inj hfirst
      rw [if_neg fun hboth => hquote hboth.2.1]
    · rfl
  rw [hkey]
  exact Scan.isRun_of_isWord h

namespace Flatten

variable {source text parent key : Text} {file : SourceFile} {members : List Member}

/-- The key of a property with an object type, at any depth of such types. -/
inductive ObjectKey : Text → List Member → Prop
  | direct {members : List Member} {inline : Inline}
    (hinline : inline ∈ inlines (propertiesOf members)) : ObjectKey inline.head.key members
  | nested {key : Text} {members : List Member} {inline : Inline}
    (hinline : inline ∈ inlines (propertiesOf members))
    (hinside : ObjectKey key inline.members) : ObjectKey key members

/-- The name of an extracted interface is a word exactly if the key in it is a run. -/
theorem isWord_extracted_iff (h : IsWord parent) :
    IsWord (Naming.extracted parent key) ↔ Scan.IsRun key := by
  have hseparator : Scan.IsRun Naming.separator := by decide
  rw [Naming.extracted, Scan.isWord_append_iff h, Scan.isRun_append_iff hseparator]

/-- The names of all interfaces that come out of members are words exactly if all keys
in them are runs. -/
theorem isWord_hoisted_iff (h : IsWord parent) :
    (∀ hoisted ∈ hoistMembers parent members, IsWord hoisted.name) ↔
      ∀ key, ObjectKey key members → Scan.IsRun key := by
  induction members using body_induction generalizing parent with
  | step members ih =>
    -- an object type becomes an interface, behind those that come out of it
    have hmem {inline : Inline} (hinline : inline ∈ inlines (propertiesOf members)) :
        inline.hoist parent ⊆ hoistMembers parent members := by
      intro hoisted hhoisted
      rw [hoistMembers_eq]
      exact List.mem_flatMap.2 ⟨inline, hinline, hhoisted⟩
    refine ⟨fun hwords key hkey => ?_, fun hkeys hoisted hhoisted => ?_⟩
    · have hname {inline : Inline} (hinline : inline ∈ inlines (propertiesOf members)) :
          IsWord (Naming.extracted parent inline.head.key) :=
        hwords _ (hmem hinline (List.mem_append_right _ List.mem_cons_self))
      cases hkey with
      | direct hinline => exact (isWord_extracted_iff h).1 (hname hinline)
      | nested hinline hinside =>
        refine (ih _ hinline (hname hinline)).1 (fun hoisted hhoisted => ?_) key hinside
        exact hwords hoisted (hmem hinline (List.mem_append_left _ hhoisted))
    · rw [hoistMembers_eq] at hhoisted
      obtain ⟨inline, hinline, hhoisted⟩ := List.mem_flatMap.1 hhoisted
      have hname : IsWord (Naming.extracted parent inline.head.key) :=
        (isWord_extracted_iff h).2 (hkeys _ (.direct hinline))
      rcases List.mem_append.1 hhoisted with hhoisted | hhoisted
      · exact (ih inline hinline hname).2 (fun key hkey => hkeys key (.nested hinline hkey)) hoisted
          hhoisted
      · obtain rfl := List.mem_singleton.1 hhoisted
        exact hname

/-- The names that are made up for a file are words exactly if all keys of properties
with object types are runs. -/
theorem isWord_madeNames_iff (hread : SourceFile.read source = some file) :
    (∀ name ∈ madeNames file, IsWord name) ↔
      ∀ decl ∈ file.interfaces, ∀ key, ObjectKey key decl.members → Scan.IsRun key := by
  rw [madeNames, List.forall_mem_map, hoistedOf, List.forall_mem_flatMap]
  exact forall₂_congr fun decl hdecl =>
    isWord_hoisted_iff (SourceFile.isWord_of_interface hread hdecl)

/-- Nothing comes out of members exactly if no property has an object type. -/
theorem hoistMembers_eq_nil_iff :
    hoistMembers parent members = [] ↔ inlines (propertiesOf members) = [] := by
  rw [hoistMembers_eq, List.flatMap_eq_nil_iff]
  refine ⟨fun h => List.eq_nil_iff_forall_not_mem.2 fun inline hinline => ?_, fun h => ?_⟩
  · exact List.append_ne_nil_of_right_ne_nil _ (List.cons_ne_nil _ _) (h inline hinline)
  · rw [h]
    exact List.forall_mem_nil _

/-- A file from which nothing is extracted stays as it is. -/
theorem eq_of_madeNames_eq_nil (hread : SourceFile.read source = some file)
    (h : flatten source = .ok text) (hnone : madeNames file = []) : text = source := by
  have hplain : ∀ decl ∈ file.interfaces, inlines (propertiesOf decl.members) = [] := by
    rw [madeNames, List.map_eq_nil_iff, hoistedOf, List.flatMap_eq_nil_iff] at hnone
    exact fun decl hdecl => hoistMembers_eq_nil_iff.1 (hnone decl hdecl)
  have hsame : flatten source = .ok source := (flatten_preserves hread).2.2 hplain
  exact Except.ok.inj (h.symm.trans hsame)

end Flatten

end InterfaceSchema
