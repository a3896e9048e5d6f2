import InterfaceSchema.Proofs.Disk.Parents
import InterfaceSchema.Proofs.Fixup.Replacing

/-!
# Paths without extension

The extension of a path is cut off at the end of its text, together with the dot
before it and whatever follows the file name. What is left is the start of the text
and is empty only if the text is.
-/

namespace InterfaceSchema

open FileTree

/-- The path up to the stem of its file name. -/
def Path.upToStem (path : Path) : Path :=
  match path.fileName? with
  | none => path
  | some name =>
    Path.unsplit path.split.1 ((Path.trimPieces path.split.2).dropLast ++ [stemOf name])

section Names

variable {name : Text}

/-- A name starts with its stem. -/
theorem stemOf_starts (name : Text) : stemOf name <+: name := by
  rw [stemOf]
  split
  · exact List.prefix_rfl
  · dsimp only
    split
    · exact List.prefix_rfl
    · have hsuffix := (List.tail_suffix _).trans
        (List.dropWhile_suffix (l := name.reverse) (· != '.'))
      simpa using List.reverse_prefix.2 hsuffix

/-- A name has a stem. -/
theorem stemOf_ne_nil (h : name ≠ []) : stemOf name ≠ [] := by
  rw [stemOf]
  split
  · exact h
  · dsimp only
    split
    · exact h
    · next hstem => simpa using hstem

/-- The extension of a name is a part of it. -/
theorem length_extensionOf? {extension : Text} (h : extensionOf? name = some extension) :
    extension.length < name.length := by
  rw [extensionOf?] at h
  split at h
  · cases h
  split at h
  · cases h
  · next htail =>
    cases h
    have hcut := congrArg List.length
      (List.takeWhile_append_dropWhile (p := (· != '.')) (l := name.reverse))
    have hrest : 0 < (name.reverse.dropWhile (· != '.')).tail.length :=
      List.length_pos_iff.2 (by simpa using htail)
    simp only [List.length_append, List.length_reverse, List.length_tail] at hcut hrest ⊢
    omega

end Names

section Paths

variable {path : Path} {name : Text}

/-- The components of a path are those of its pieces up to the last one that
counts. -/
theorem components_eq_trimPieces (path : Path) : path.components =
    path.split.1.components ++ (Path.trimPieces path.split.2).filterMap Path.component? := by
  have hcut : Path.trimPieces path.split.2 ++
      path.split.2.rtakeWhile (fun piece => (Path.component? piece).isNone) = path.split.2 :=
    List.rdropWhile_append_rtakeWhile
  have hnone : (path.split.2.rtakeWhile fun piece => (Path.component? piece).isNone).filterMap
      Path.component? = [] := by
    refine List.filterMap_eq_nil_iff.2 fun piece hpiece => ?_
    simpa using List.mem_rtakeWhile_imp (p := fun piece => (Path.component? piece).isNone) hpiece
  calc path.components
      = path.split.1.components ++ path.split.2.filterMap Path.component? := rfl
    _ = _ := by
      conv_lhs => rw [← hcut]
      rw [List.filterMap_append, hnone, List.append_nil]

/-- The file name of a path is its last piece that counts. -/
theorem trimPieces_of_fileName? (h : path.fileName? = some name) : name ≠ [] ∧
    Path.trimPieces path.split.2 = (Path.trimPieces path.split.2).dropLast ++ [name] := by
  have hlast : path.components.getLast? = some (.name name) := by
    rw [Path.fileName?] at h
    split at h
    · next found hfound =>
      cases h
      exact hfound
    · cases h
  rw [components_eq_trimPieces] at hlast
  by_cases hnil : Path.trimPieces path.split.2 = []
  · rw [hnil] at hlast
    cases hlead : path.split.1 <;> rw [hlead] at hlast <;> cases hlast
  · obtain ⟨hne, hdot⟩ := getLast_trimPieces hnil
    obtain ⟨component, hsome, htext, -⟩ := Disk.component?_isSome hne hdot
    have hsplit := List.dropLast_append_getLast hnil
    rw [← hsplit, List.filterMap_append, List.filterMap_cons_some hsome, List.filterMap_nil,
      ← List.append_assoc, List.getLast?_concat] at hlast
    have hname : (Path.trimPieces path.split.2).getLast hnil = name := by
      rw [← htext, Option.some.inj hlast]
      rfl
    exact ⟨hname ▸ hne, hname ▸ hsplit.symm⟩

/-- The extension is cut off the text first, and then what follows the stem. -/
theorem withoutExtension_eq (path : Path) : path.withoutExtension =
    match path.extension? with
    | none => path.upToStem
    | some extension =>
      Path.upToStem ⟨path.text.take (path.text.length - extension.length)⟩ := by
  rw [Path.withoutExtension]
  cases path.extension? <;> rfl

/-- The file name of a path is a part of its text. -/
theorem length_fileName? (h : path.fileName? = some name) : name.length ≤ path.text.length := by
  obtain ⟨-, hname⟩ := trimPieces_of_fileName? h
  obtain ⟨blanks, hpieces, -⟩ := trimPieces_append path.split.2
  rw [hname] at hpieces
  have hpath := congrArg (fun path => path.text.length) (unsplit_split path)
  have hmem : name ∈ path.split.2 := by
    rw [hpieces]
    simp
  have hpiece := Calls.length_le_joinWith hmem "/"
  simp only [Path.unsplit, List.length_append] at hpath
  omega

/-- Pieces that end with the start of a name make up the start of the text. -/
theorem text_unsplit_concat (lead : Path.Lead) (pieces : List Text) {first : Text}
    (h : first <+: name) :
    (Path.unsplit lead (pieces ++ [first])).text <+: (Path.unsplit lead (pieces ++ [name])).text := by
  refine (List.prefix_append_right_inj _).2 ?_
  by_cases hpieces : pieces = []
  · rw [hpieces, List.nil_append, List.nil_append, Text.joinWith_singleton,
      Text.joinWith_singleton]
    exact h
  · rw [joinWith_append hpieces (List.cons_ne_nil _ _),
      joinWith_append hpieces (List.cons_ne_nil _ _), Text.joinWith_singleton,
      Text.joinWith_singleton]
    exact (List.prefix_append_right_inj _).2 (List.cons_prefix_cons.2 ⟨rfl, h⟩)

/-- A path starts with what is left up to the stem of its file name. -/
theorem upToStem_starts (path : Path) : path.upToStem.text <+: path.text ∧
    (path.text ≠ [] → path.upToStem.text ≠ []) := by
  rw [Path.upToStem]
  cases hfile : path.fileName? with
  | none => exact ⟨List.prefix_rfl, id⟩
  | some name =>
    obtain ⟨hne, hname⟩ := trimPieces_of_fileName? hfile
    obtain ⟨blanks, hpieces, -⟩ := trimPieces_append path.split.2
    refine ⟨(text_unsplit_concat _ _ (stemOf_starts name)).trans ?_, fun _ hnil => ?_⟩
    · conv_rhs => rw [← unsplit_split path, hpieces]
      rw [← hname]
      exact text_unsplit_append _ _ _
    · have hmem : stemOf name ∈ (Path.trimPieces path.split.2).dropLast ++ [stemOf name] := by simp
      have hstem := Calls.length_le_joinWith hmem "/"
      rw [(List.append_eq_nil_iff.1 hnil).2] at hstem
      exact stemOf_ne_nil hne (List.eq_nil_of_length_eq_zero (Nat.le_zero.1 hstem))

/-- A path starts with what is left without its extension. -/
theorem withoutExtension_starts (path : Path) : path.withoutExtension.text <+: path.text ∧
    (path.text ≠ [] → path.withoutExtension.text ≠ []) := by
  rw [withoutExtension_eq]
  cases hextension : path.extension? with
  | none => exact upToStem_starts path
  | some extension =>
    -- the extension is shorter than the name, so that something is left of the text
    obtain ⟨hfront, hne⟩ :=
      upToStem_starts ⟨path.text.take (path.text.length - extension.length)⟩
    refine ⟨hfront.trans ⟨_, List.take_append_drop _ _⟩, fun htext => hne ?_⟩
    rw [Path.extension?] at hextension
    obtain ⟨name, hname, hextension⟩ := Option.bind_eq_some_iff.1 hextension
    have hlength := length_extensionOf? hextension
    have hbound := length_fileName? hname
    rw [Ne, ← List.length_eq_zero_iff, List.length_take]
    omega

/-- A path leads from the root with or without its extension. -/
theorem isAbsolute_withoutExtension (path : Path) :
    path.withoutExtension.isAbsolute = path.isAbsolute := by
  obtain ⟨⟨rest, hrest⟩, hne⟩ := withoutExtension_starts path
  rw [Path.isAbsolute, Path.isAbsolute]
  cases htext : path.withoutExtension.text with
  | nil =>
    have hnil : path.text = [] := by
      by_contra hpath
      exact hne hpath htext
    rw [hnil]
  | cons c more =>
    rw [← hrest, htext]
    rfl

end Paths

end InterfaceSchema
