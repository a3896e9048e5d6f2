import InterfaceSchema.Proofs.Disk.Trees

/-!
# Trees that grow

What writes a file or makes directories lets a tree grow: directories and
files stay what they are, and the files at other places keep what they hold. A
path that leads to a file therefore goes on leading to it.
-/

namespace InterfaceSchema.FileTree

/-- A tree in which nothing was removed, and in which a file has changed only
at the touched places. -/
structure Grows (touched : Place → Prop) (tree later : FileTree) : Prop where
  current : later.current = tree.current
  directory : ∀ place, tree.node? place = some .directory → later.node? place = some .directory
  file : ∀ place content, tree.node? place = some (.file content) →
    ∃ held, later.node? place = some (.file held)
  untouched : ∀ place content, ¬touched place →
    (later.node? place = some (.file content) ↔ tree.node? place = some (.file content))
  wellFormed : tree.WellFormed → later.WellFormed

namespace Grows

variable {touched other : Place → Prop} {first second third : FileTree} {place : Place}

/-- A tree that does not change. -/
theorem refl (touched : Place → Prop) (tree : FileTree) : Grows touched tree tree where
  current := rfl
  directory _ h := h
  file _ content h := ⟨content, h⟩
  untouched _ _ _ := Iff.rfl
  wellFormed h := h

/-- More places may be touched. -/
theorem mono (h : Grows touched first second) (himp : ∀ place, touched place → other place) :
    Grows other first second :=
  { h with untouched := fun place content hplace => h.untouched place content fun ht =>
      hplace (himp place ht) }

/-- One change after another. -/
theorem trans (h : Grows touched first second) (h' : Grows touched second third) :
    Grows touched first third where
  current := h'.current.trans h.current
  directory place hplace := h'.directory place (h.directory place hplace)
  file place content hplace := by
    obtain ⟨held, hheld⟩ := h.file place content hplace
    exact h'.file place held hheld
  untouched place content hplace :=
    (h'.untouched place content hplace).trans (h.untouched place content hplace)
  wellFormed htree := h'.wellFormed (h.wellFormed htree)

/-- A new directory. -/
theorem put_directory {tree : FileTree} (hroot : place ≠ []) (hnode : tree.node? place = none)
    (hname : tree.WellFormed → ∀ name ∈ place, IsName name) :
    Grows (fun _ => False) tree (tree.put place .directory) where
  current := rfl
  directory found h := by
    rw [node?_put hroot]
    split
    · rfl
    · exact h
  file found content h := by
    have hne : found ≠ place := by
      rintro rfl
      simp [hnode] at h
    exact ⟨content, by rw [node?_put hroot, if_neg hne, h]⟩
  untouched found content _ := by
    rw [node?_put hroot]
    split
    · next heq => simp [heq, hnode]
    · rfl
  wellFormed htree := htree.put hroot (hname htree)

/-- A new file, or new content for a file. -/
theorem put_file {tree : FileTree} (content : Content) (hroot : place ≠ [])
    (hnode : tree.node? place ≠ some .directory)
    (hname : tree.WellFormed → ∀ name ∈ place, IsName name) :
    Grows (· = place) tree (tree.put place (.file content)) where
  current := rfl
  directory found h := by
    have hne : found ≠ place := by
      rintro rfl
      exact hnode h
    rw [node?_put hroot, if_neg hne, h]
  file found held h := by
    rw [node?_put hroot]
    split
    · exact ⟨content, rfl⟩
    · exact ⟨held, h⟩
  untouched found held hne := by rw [node?_put hroot, if_neg hne]
  wellFormed htree := htree.put hroot (hname htree)

variable {tree later : FileTree} {here : Place} {list : List Text} {path : Path}
  {content held : Content} {goal : Spot}

/-- Names that lead to a file or to a missing entry lead to the file that
stands there later. -/
theorem walk (h : Grows touched tree later) (hwalk : tree.walk here list = .ok goal)
    (hopen : ∀ place, goal ≠ .taken place .directory)
    (hlater : later.node? goal.place = some (.file held)) :
    later.walk here list = .ok (.taken goal.place (.file held)) := by
  induction list generalizing here with
  | nil =>
    cases hwalk
    exact absurd rfl (hopen here)
  | cons name rest ih =>
    rw [FileTree.walk] at hwalk ⊢
    split at hwalk
    · next hdot => rw [if_pos hdot]; exact ih hwalk
    · next hdot =>
      rw [if_neg hdot]
      split at hwalk
      · next hup => rw [if_pos hup]; exact ih hwalk
      · next hup =>
        rw [if_neg hup]
        split at hwalk
        · next hnode =>
          rw [h.directory _ hnode]
          exact ih hwalk
        · split at hwalk
          · next hlast =>
            cases hwalk
            rw [Spot.place] at hlater
            rw [hlater]
            exact if_pos hlast
          · cases hwalk
        · split at hwalk
          · next hlast =>
            cases hwalk
            rw [Spot.place] at hlater
            rw [hlater]
            exact if_pos hlast
          · cases hwalk

/-- A path that leads to a file or to a missing entry leads to the file that
stands there later. -/
theorem spot (h : Grows touched tree later) (hpath : tree.spot path = .ok goal)
    (hopen : ∀ place, goal ≠ .taken place .directory)
    (hlater : later.node? goal.place = some (.file held)) :
    later.spot path = .ok (.taken goal.place (.file held)) := by
  rw [FileTree.spot] at hpath ⊢
  split at hpath
  · cases hpath
  · next hempty =>
    rw [if_neg hempty, FileTree.origin, h.current]
    exact h.walk hpath hopen hlater

/-- A path that leads to a file goes on leading to it. -/
theorem find_file (h : Grows touched tree later)
    (hfind : tree.find path = .ok (place, .file content))
    (hlater : later.node? place = some (.file held)) :
    later.find path = .ok (place, .file held) := by
  obtain ⟨hspot, hwants⟩ := find_file_iff.1 hfind
  exact find_file_iff.2 ⟨h.spot hspot (by simp) hlater, hwants⟩

end Grows

/-- A tree in which a file was given a text. -/
structure Saved (tree : FileTree) (path : Path) (text : Text) (later : FileTree) : Prop where
  grows : Grows (· = path.place tree.current) tree later
  found : later.find path = .ok (path.place tree.current, .file (.text text))

section Operations

variable {tree later : FileTree} {path : Path} {text : Text}

/-- The file stands at the place of its path. -/
theorem Saved.node? (h : Saved tree path text later) :
    later.node? (path.place tree.current) = some (.file (.text text)) := (find_file h.found).2

/-- A file that has the text already. -/
theorem Saved.of_readText (h : tree.readText path = .ok text) : Saved tree path text tree :=
  ⟨.refl _ tree, readText_ok h⟩

/-- Directories that are made before a file is saved do not matter. -/
theorem Saved.of_grows {middle : FileTree} (h : Grows (fun _ => False) tree middle)
    (hsaved : Saved middle path text later) : Saved tree path text later := by
  obtain ⟨hgrows, hfound⟩ := hsaved
  rw [h.current] at hgrows hfound
  exact ⟨(h.mono fun _ => False.elim).trans hgrows, hfound⟩

/-- Where a path leads, unless this is a directory, there is no directory. -/
theorem spot_open {goal : Spot} (h : tree.spot path = .ok goal)
    (hopen : ∀ place, goal ≠ .taken place .directory) :
    goal.place ≠ [] ∧ tree.node? goal.place ≠ some .directory := by
  rw [spot] at h
  split at h
  · cases h
  · rcases goal with ⟨found, _ | held⟩ | found
    · exact absurd rfl (hopen found)
    · have hnode := walk_file h
      refine ⟨?_, by simp [Spot.place, hnode]⟩
      rintro rfl
      simp [FileTree.node?] at hnode
    · obtain ⟨hroot, hnode⟩ := walk_vacant h
      exact ⟨hroot, by simp [Spot.place, hnode]⟩

/-- Putting a file where its path leads. -/
theorem Saved.put {goal : Spot} (text : Text) (h : tree.spot path = .ok goal)
    (hopen : ∀ place, goal ≠ .taken place .directory) (hwants : wantsDirectory path = false) :
    Saved tree path text (tree.put goal.place (.file (.text text))) := by
  obtain ⟨hroot, hnode⟩ := spot_open h hopen
  have hplace := spot_place h
  have hgrows : Grows (· = goal.place) tree (tree.put goal.place (.file (.text text))) :=
    .put_file _ hroot hnode fun htree => hplace ▸ htree.isName_place path
  have hheld : (tree.put goal.place (.file (.text text))).node? goal.place =
      some (.file (.text text)) := by
    rw [node?_put hroot, if_pos rfl]
  have hfound := find_file_iff.2 ⟨hgrows.spot h hopen hheld, hwants⟩
  exact ⟨hplace ▸ hgrows, hplace ▸ hfound⟩

/-- Giving a file a text. -/
theorem write_ok (h : tree.write path (.text text) = .ok later) : Saved tree path text later := by
  rw [write] at h
  cases hspot : tree.spot path with
  | error cause => simp [hspot, bind, Except.bind] at h
  | ok goal =>
    rw [hspot] at h
    rcases goal with ⟨found, _ | held⟩ | found
    · simp [bind, Except.bind] at h
    all_goals
      cases hwants : wantsDirectory path
      · simp only [bind, Except.bind, hwants, Bool.false_eq_true, if_false, Except.ok.injEq] at h
        exact h ▸ Saved.put text hspot (by simp) hwants
      · simp [bind, Except.bind, hwants] at h

/-- Making a directory. -/
theorem makeDir_ok (h : tree.makeDir path = .ok later) : Grows (fun _ => False) tree later := by
  rw [makeDir] at h
  cases hspot : tree.spot path with
  | error cause => simp [hspot, bind, Except.bind] at h
  | ok spot =>
    have hplace := spot_place hspot
    rw [hspot] at h
    rcases spot with ⟨found, node⟩ | found
    · simp [bind, Except.bind] at h
    · simp only [bind, Except.bind, Except.ok.injEq] at h
      rw [FileTree.spot] at hspot
      split at hspot
      · cases hspot
      · obtain ⟨hroot, hnode⟩ := walk_vacant hspot
        rw [Spot.place] at hplace
        exact h ▸ .put_directory hroot hnode fun htree => hplace ▸ htree.isName_place path

/-- Making directories one above another, whether or not this succeeds. -/
theorem makeAll_grows (tree : FileTree) (paths : List Path) :
    Grows (fun _ => False) tree (tree.makeAll paths).2 := by
  induction paths with
  | nil => exact .refl _ tree
  | cons path above ih =>
    rw [makeAll]
    split
    · exact .refl _ tree
    · split
      · next hmade => exact makeDir_ok hmade
      · split
        · next habove => rw [habove] at ih; exact ih
        · next habove =>
          rw [habove] at ih
          split
          · next hmade => exact ih.trans (makeDir_ok hmade)
          · exact ih
      · exact .refl _ tree

/-- Making a directory and those above it, whether or not this succeeds. -/
theorem makeDirs_grows (tree : FileTree) (path : Path) :
    Grows (fun _ => False) tree (tree.makeDirs path).2 := makeAll_grows tree path.ancestors

end Operations

end InterfaceSchema.FileTree
