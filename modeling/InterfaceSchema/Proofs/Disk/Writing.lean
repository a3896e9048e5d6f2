import InterfaceSchema.Proofs.Disk.Growth

/-!
# Files saved one after another

A run saves one file after another. Whatever it saves, it touches the places
of those files only, and all of them are there afterwards. A place holds the
text that was saved there, provided that no two texts were saved there.
-/

namespace InterfaceSchema.FileTree

/-- Trees in which files were saved one after another, each with its text. -/
def Wrote (tree : FileTree) : List (Path × Text) → FileTree → Prop
  | [], later => later = tree
  | write :: rest, later => ∃ middle, Saved tree write.1 write.2 middle ∧ Wrote middle rest later

namespace Wrote

variable {tree middle later : FileTree} {writes more : List (Path × Text)} {place : Place}
  {path : Path} {text : Text}

/-- Nothing was saved. -/
theorem refl (tree : FileTree) : Wrote tree [] tree := rfl

/-- One file was saved. -/
theorem single (h : Saved tree path text later) : Wrote tree [(path, text)] later :=
  ⟨later, h, rfl⟩

/-- Files were saved, then others. -/
theorem append (h : Wrote tree writes middle) (h' : Wrote middle more later) :
    Wrote tree (writes ++ more) later := by
  induction writes generalizing tree with
  | nil =>
    cases h
    exact h'
  | cons write rest ih =>
    obtain ⟨next, hsaved, hrest⟩ := h
    exact ⟨next, hsaved, ih hrest⟩

/-- The places of the files are touched, and no others. -/
theorem grows (h : Wrote tree writes later) :
    Grows (fun place => ∃ write ∈ writes, write.1.place tree.current = place) tree later := by
  induction writes generalizing tree with
  | nil =>
    cases h
    exact .refl _ _
  | cons write rest ih =>
    obtain ⟨middle, hsaved, hrest⟩ := h
    have hcurrent := hsaved.grows.current
    refine (hsaved.grows.mono fun place hplace => ?_).trans ((ih hrest).mono fun place hplace => ?_)
    · exact ⟨write, List.mem_cons_self, hplace.symm⟩
    · obtain ⟨other, hother, hplace⟩ := hplace
      exact ⟨other, List.mem_cons_of_mem _ hother, hcurrent ▸ hplace⟩

/-- Every file that was saved is there afterwards. -/
theorem find (h : Wrote tree writes later) (hmem : (path, text) ∈ writes) :
    ∃ content, later.find path = .ok (path.place tree.current, .file content) := by
  induction writes generalizing tree with
  | nil => cases hmem
  | cons write rest ih =>
    obtain ⟨middle, hsaved, hrest⟩ := h
    rcases List.mem_cons.1 hmem with rfl | hmem
    · obtain ⟨held, hheld⟩ := hrest.grows.file _ _ hsaved.node?
      exact ⟨held, hrest.grows.find_file hsaved.found hheld⟩
    · exact hsaved.grows.current ▸ ih hrest hmem

/-- A place where one text was saved, once or more often, holds this text. -/
theorem node? (h : Wrote tree writes later)
    (hmem : ∃ write ∈ writes, write.1.place tree.current = place)
    (hsame : ∀ write ∈ writes, write.1.place tree.current = place → write.2 = text) :
    later.node? place = some (.file (.text text)) := by
  induction writes generalizing tree with
  | nil =>
    obtain ⟨write, hwrite, -⟩ := hmem
    cases hwrite
  | cons write rest ih =>
    obtain ⟨middle, hsaved, hrest⟩ := h
    have hcurrent := hsaved.grows.current
    by_cases hlater : ∃ other ∈ rest, other.1.place middle.current = place
    · exact ih hrest hlater fun other hother hplace =>
        hsame other (List.mem_cons_of_mem _ hother) (hcurrent ▸ hplace)
    · -- the place is not touched after the first file
      obtain ⟨other, hother, hplace⟩ := hmem
      have hfirst : write.1.place tree.current = place := by
        rcases List.mem_cons.1 hother with rfl | hother
        · exact hplace
        · exact absurd ⟨other, hother, hcurrent ▸ hplace⟩ hlater
      have htext := hsame write List.mem_cons_self hfirst
      exact (hrest.grows.untouched place _ hlater).2 (htext ▸ hfirst ▸ hsaved.node?)

/-- What a file holds afterwards, where no text was saved before. -/
theorem node?_iff (h : Wrote tree writes later) {content : Content}
    (hnone : ∀ content, tree.node? place ≠ some (.file content))
    (hsame : ∀ write ∈ writes, ∀ other ∈ writes,
      write.1.place tree.current = other.1.place tree.current → write.2 = other.2) :
    later.node? place = some (.file content) ↔
      ∃ write ∈ writes, write.1.place tree.current = place ∧ content = .text write.2 := by
  constructor
  · intro hnode
    by_cases hmem : ∃ write ∈ writes, write.1.place tree.current = place
    · obtain ⟨write, hwrite, hplace⟩ := hmem
      have hheld := h.node? ⟨write, hwrite, hplace⟩ fun other hother hsamePlace =>
        hsame other hother write hwrite (hsamePlace.trans hplace.symm)
      rw [hnode] at hheld
      exact ⟨write, hwrite, hplace, by simpa using hheld⟩
    · exact absurd ((h.grows.untouched place content hmem).1 hnode) (hnone content)
  · rintro ⟨write, hwrite, hplace, rfl⟩
    exact h.node? ⟨write, hwrite, hplace⟩ fun other hother hsamePlace =>
      hsame other hother write hwrite (hsamePlace.trans hplace.symm)

end Wrote

/-- The text that was saved at a place last. -/
def lastText? (current : Place) (writes : List (Path × Text)) (place : Place) : Option Text :=
  (writes.reverse.find? fun write => write.1.place current = place).map Prod.snd

section Last

variable {tree later : FileTree} {current place : Place} {writes more : List (Path × Text)}
  {text : Text}

/-- What is saved later counts. -/
theorem lastText?_append : lastText? current (writes ++ more) place =
    (lastText? current more place).or (lastText? current writes place) := by
  simp [lastText?, List.find?_append, Option.map_or]

/-- Nothing was saved at a place that none of the paths has. -/
theorem lastText?_eq_none_iff : lastText? current writes place = none ↔
    ∀ write ∈ writes, write.1.place current ≠ place := by
  simp [lastText?]

/-- The only text counts in its place. -/
theorem lastText?_singleton (write : Path × Text) : lastText? current [write] place =
    if write.1.place current = place then some write.2 else none := by
  by_cases hplace : write.1.place current = place <;> simp [lastText?, hplace]

/-- The last of several texts. -/
theorem lastText?_cons (write : Path × Text) : lastText? current (write :: writes) place =
    (lastText? current writes place).or
      (if write.1.place current = place then some write.2 else none) := by
  rw [← List.singleton_append, lastText?_append, lastText?_singleton]

/-- A file holds the text that was saved there last, or what it held before. -/
theorem Wrote.node?_eq_iff (h : Wrote tree writes later) {content : Content} :
    later.node? place = some (.file content) ↔
      match lastText? tree.current writes place with
      | some text => content = .text text
      | none => tree.node? place = some (.file content) := by
  induction writes generalizing tree with
  | nil =>
    cases h
    rfl
  | cons write rest ih =>
    obtain ⟨middle, hsaved, hrest⟩ := h
    rw [ih hrest, hsaved.grows.current, lastText?_cons]
    rcases lastText? tree.current rest place with _ | text
    · rw [Option.none_or]
      by_cases hplace : write.1.place tree.current = place
      · rw [if_pos hplace, ← hplace, hsaved.node?]
        simp [eq_comm]
      · rw [if_neg hplace]
        exact hsaved.grows.untouched place content fun heq => hplace heq.symm
    · rfl

/-- A file holds a text if it was saved, or if it held one before. -/
theorem Wrote.exists_text (h : Wrote tree writes later) {content : Content}
    (hnode : later.node? place = some (.file content))
    (hbefore : lastText? tree.current writes place = none →
      tree.node? place = some (.file content) → ∃ text, content = .text text) :
    ∃ text, content = .text text := by
  have hheld := h.node?_eq_iff.1 hnode
  cases hlast : lastText? tree.current writes place with
  | none =>
    rw [hlast] at hheld
    exact hbefore hlast hheld
  | some text =>
    rw [hlast] at hheld
    exact ⟨text, hheld⟩

/-- The path of a file that was saved leads to the text that was saved there
last. -/
theorem Wrote.readText {path : Path} (h : Wrote tree writes later)
    (hmem : ∃ text, (path, text) ∈ writes) :
    ∃ text, lastText? tree.current writes (path.place tree.current) = some text ∧
      later.readText path = .ok text := by
  obtain ⟨saved, hmem⟩ := hmem
  obtain ⟨content, hfind⟩ := h.find hmem
  have hnode := h.node?_eq_iff.1 (FileTree.find_file hfind).2
  cases hlast : lastText? tree.current writes (path.place tree.current) with
  | none => exact absurd rfl (lastText?_eq_none_iff.1 hlast _ hmem)
  | some text =>
    rw [hlast] at hnode
    refine ⟨text, rfl, ?_⟩
    rw [FileTree.readText, read, hfind, hnode]
    rfl

end Last

end InterfaceSchema.FileTree
