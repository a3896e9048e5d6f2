import InterfaceSchema.Proofs.Disk.Parents
import InterfaceSchema.Proofs.Disk.Steps

/-!
# Saving where nothing is in the way

Before a file is saved, the directories on the way to it are made. This
changes nothing but the places that the path enters, and it succeeds if no file
is in the way. Nothing is in the way if the tree fits another one in which the
path leads to a file.
-/

namespace InterfaceSchema

open FileTree

namespace FileTree

/-- A tree whose files and directories are files and directories of another
one, as far as the places of a part go. -/
structure Fits (part : Place → Prop) (tree goal : FileTree) : Prop where
  current : goal.current = tree.current
  directory : ∀ place, part place → tree.node? place = some .directory →
    goal.node? place = some .directory
  file : ∀ place content, part place → tree.node? place = some (.file content) →
    ∃ held, goal.node? place = some (.file held)

/-- A path that leads to a file of a tree, within a part of it. -/
structure LeadsWithin (part : Place → Prop) (goal : FileTree) (path : Path) : Prop where
  ends : ∃ list name, names path = list ++ [name] ∧ IsName name
  found : ∃ place content, goal.find path = .ok (place, .file content)
  route : ∀ entered ∈ path.route goal.current, part entered

namespace Fits

variable {part touched : Place → Prop} {tree goal later : FileTree} {place : Place}

/-- A tree that has grown fits what it was. -/
theorem of_grows (h : Grows touched tree goal) (part : Place → Prop) : Fits part tree goal :=
  ⟨h.current, fun place _ => h.directory place, fun place content _ => h.file place content⟩

/-- A tree fits in a smaller part. -/
theorem mono {smaller : Place → Prop} (h : Fits part tree goal)
    (himp : ∀ place, smaller place → part place) : Fits smaller tree goal :=
  ⟨h.current, fun place hplace => h.directory place (himp place hplace),
    fun place content hplace => h.file place content (himp place hplace)⟩

/-- A tree fits what its goal fits. -/
theorem trans (h : Fits part tree goal) (hgoal : Fits part goal later) : Fits part tree later := by
  refine ⟨hgoal.current.trans h.current, fun place hpart hnode => ?_,
    fun place content hpart hnode => ?_⟩
  · exact hgoal.directory place hpart (h.directory place hpart hnode)
  · obtain ⟨held, hheld⟩ := h.file place content hpart hnode
    exact hgoal.file place held hpart hheld

/-- Where the goal has a directory, there is no file. -/
theorem ne_file (h : Fits part tree goal) (hpart : part place)
    (hgoal : goal.node? place = some .directory) (content : Content) :
    tree.node? place ≠ some (.file content) := by
  intro hnode
  obtain ⟨held, hheld⟩ := h.file place content hpart hnode
  rw [hgoal] at hheld
  cases hheld

/-- Where the goal has a file, there is no directory. -/
theorem ne_directory (h : Fits part tree goal) (hpart : part place) {content : Content}
    (hgoal : goal.node? place = some (.file content)) :
    tree.node? place ≠ some .directory := by
  intro hnode
  rw [h.directory place hpart hnode] at hgoal
  cases hgoal

/-- A file that is found is found where the tree fits. -/
theorem find_file {path : Path} {list : List Text} {name : Text} {content : Content}
    (h : Fits part tree goal) (hnames : names path = list ++ [name]) (hname : IsName name)
    (hroute : ∀ entered ∈ path.route tree.current, part entered)
    (hfind : tree.find path = .ok (place, .file content)) :
    ∃ held, goal.find path = .ok (place, .file held) := by
  have hwants := (find_file_iff.1 hfind).2
  obtain ⟨rfl, hnode, hdirs⟩ := (find_file_route hnames hname hwants).1 hfind
  obtain ⟨held, hheld⟩ :=
    h.file _ content (hroute _ (place_mem_route hnames hname tree.current)) hnode
  refine ⟨held, (find_file_route hnames hname hwants).2 ⟨by rw [h.current], hheld, ?_⟩⟩
  rw [h.current]
  intro entered hentered
  refine h.directory entered (hroute entered ?_) (hdirs entered hentered)
  rw [Path.route, hnames, Place.route_append, List.mem_append]
  exact .inl hentered

/-- A directory where the goal has one. -/
theorem put_directory (h : Fits part tree goal) (hroot : place ≠ [])
    (hgoal : goal.node? place = some .directory) : Fits part (tree.put place .directory) goal := by
  refine ⟨h.current, fun found hpart hnode => ?_, fun found content hpart hnode => ?_⟩
  · rw [node?_put hroot] at hnode
    split at hnode
    · next heq => rwa [heq]
    · exact h.directory found hpart hnode
  · rw [node?_put hroot] at hnode
    split at hnode
    · cases hnode
    · exact h.file found content hpart hnode

/-- A file where the goal has one. -/
theorem put_file (h : Fits part tree goal) (hroot : place ≠ []) {held : Content}
    (hgoal : goal.node? place = some (.file held)) (content : Content) :
    Fits part (tree.put place (.file content)) goal := by
  refine ⟨h.current, fun found hpart hnode => ?_, fun found content hpart hnode => ?_⟩
  · rw [node?_put hroot] at hnode
    split at hnode
    · cases hnode
    · exact h.directory found hpart hnode
  · rw [node?_put hroot] at hnode
    split at hnode
    · next heq => exact ⟨held, heq ▸ hgoal⟩
    · exact h.file found content hpart hnode

end Fits

section Making

variable {part : Place → Prop} {tree goal later : FileTree} {path parent : Path}
  {before after list : List Text} {name : Text} {place : Place}

/-- Single dots enter nothing. -/
theorem route_of_dots {dots : List Text} (h : ∀ dot ∈ dots, dot = ".".toList) (here : Place) :
    Place.route here dots = [] := by
  induction dots with
  | nil => rfl
  | cons dot rest ih =>
    rw [Place.route, if_pos (h dot List.mem_cons_self)]
    exact ih fun other hother => h other (List.mem_cons_of_mem _ hother)

/-- Before its last name, a trimmed path enters what the path above it
enters. -/
theorem route_dropLast (h : path.Extends parent before name after) (htrimmed : path.Trimmed)
    (current : Place) :
    Place.route (path.start current) (names path).dropLast = parent.route current := by
  have hafter : after = [] := by
    by_contra hne
    have hlast : (names path).getLast? = some ".".toList := by
      rw [h.names, List.getLast?_append, List.getLast?_cons,
        List.getLast?_eq_some_getLast hne, h.after _ (List.getLast_mem hne)]
      rfl
    exact h.ne_here (htrimmed hlast name (by rw [h.names]; simp))
  have hdrop : (names path).dropLast = names parent ++ before := by
    rw [h.names, hafter, List.dropLast_concat]
  rw [hdrop, Place.route_append, route_of_dots h.before, List.append_nil, Path.route, Path.start,
    Path.start, h.isAbsolute]

/-- The path above a path enters no other places. -/
theorem route_parent_subset (h : path.parent? = some parent) (current : Place) :
    parent.route current ⊆ path.route current := by
  rcases extends_of_parent? h with ⟨-, -, rfl⟩ | ⟨before, name, after, hextends⟩
  · exact List.nil_subset _
  · rw [Path.route, Path.route, Path.start, Path.start, hextends.isAbsolute, hextends.names,
      Place.route_append, Place.route_append]
    exact List.subset_append_of_subset_left _ (List.subset_append_left _ _)

/-- The paths above a path enter no other places. -/
theorem route_ancestors_subset {count : Nat} {above : Path} (current : Place)
    (h : above ∈ Path.ancestorsUpTo count path) : above.route current ⊆ path.route current := by
  induction count generalizing path with
  | zero => cases h
  | succ count ih =>
    rw [Path.ancestorsUpTo] at h
    rcases List.mem_cons.1 h with rfl | h
    · exact List.Subset.refl _
    · split at h
      · next parent hparent => exact List.Subset.trans (ih h) (route_parent_subset hparent current)
      · cases h

/-- Making a directory changes nothing but a place that its path enters. -/
theorem makeDir_elsewhere (h : tree.makeDir path = .ok later)
    (hplace : place ∉ path.route tree.current) : later.node? place = tree.node? place := by
  rw [makeDir] at h
  cases hspot : tree.spot path with
  | error cause => simp [hspot, bind, Except.bind] at h
  | ok spot =>
    rw [hspot] at h
    rcases spot with ⟨found, node⟩ | found
    · simp [bind, Except.bind] at h
    · simp only [bind, Except.bind, Except.ok.injEq] at h
      rw [FileTree.spot] at hspot
      split at hspot
      · cases hspot
      · have hfound : found ∈ path.route tree.current := mem_route_of_walk hspot (by simp)
        obtain ⟨hroot, -⟩ := walk_vacant hspot
        have hne : place ≠ found := fun heq => hplace (heq ▸ hfound)
        rw [← h, node?_put hroot, if_neg hne]

/-- Making directories changes nothing but places that their paths enter,
whether or not it succeeds. -/
theorem makeAll_elsewhere (tree : FileTree) {paths : List Path}
    (hplace : ∀ path ∈ paths, place ∉ path.route tree.current) :
    (tree.makeAll paths).2.node? place = tree.node? place := by
  induction paths with
  | nil => rfl
  | cons path above ih =>
    have hpath := hplace path List.mem_cons_self
    have habove := ih fun other hother => hplace other (List.mem_cons_of_mem _ hother)
    have hcurrent := (makeAll_grows tree above).current
    rw [makeAll]
    split
    · rfl
    · split
      · next hmade => exact makeDir_elsewhere hmade hpath
      · split
        · next hfailed => rw [hfailed] at habove; exact habove
        · next hmade =>
          rw [hmade] at habove hcurrent
          split
          · next hlast =>
            exact (makeDir_elsewhere hlast (hcurrent ▸ hpath)).trans habove
          · exact habove
      · rfl

/-- Making a directory and those above it changes nothing but places that its
path enters, whether or not it succeeds. -/
theorem makeDirs_elsewhere (tree : FileTree) (hplace : place ∉ path.route tree.current) :
    (tree.makeDirs path).2.node? place = tree.node? place :=
  makeAll_elsewhere tree fun _ hother hmem => hplace (route_ancestors_subset _ hother hmem)

/-- Giving a file a text changes nothing but a place that its path enters. -/
theorem write_elsewhere {content : Content} (h : tree.write path content = .ok later)
    (hplace : place ∉ path.route tree.current) : later.node? place = tree.node? place := by
  rw [write] at h
  cases hspot : tree.spot path with
  | error cause => simp [hspot, bind, Except.bind] at h
  | ok goal =>
    have hopen : goal.place ≠ [] ∨ ∃ found, goal = .taken found .directory := by
      by_cases hdir : ∃ found, goal = .taken found .directory
      · exact .inr hdir
      · exact .inl (spot_open hspot fun found heq => hdir ⟨found, heq⟩).1
    rw [hspot] at h
    rw [FileTree.spot] at hspot
    split at hspot
    · cases hspot
    · rcases goal with ⟨found, _ | held⟩ | found
      · simp [bind, Except.bind] at h
      all_goals
        have hfound := mem_route_of_walk hspot (by simp)
        have hroot : found ≠ [] := by simpa [Spot.place] using hopen
        have hne : place ≠ found := fun heq => hplace (heq ▸ hfound)
        cases hwants : wantsDirectory path
        · simp only [bind, Except.bind, hwants, Bool.false_eq_true, if_false, Except.ok.injEq] at h
          rw [← h, node?_put hroot, if_neg hne]
        · simp [bind, Except.bind, hwants] at h

end Making

section Succeeding

variable {part : Place → Prop} {tree goal : FileTree} {path : Path} {list : List Text}
  {name : Text}

/-- Without files in the way a directory is there already, or can be made, or
something is missing before it. -/
theorem makeDir_cases (hempty : path.text ≠ [])
    (hfree : ∀ entered ∈ path.route tree.current, ∀ held,
      tree.node? entered ≠ some (.file held)) :
    (tree.makeDir path = .error .alreadyExists ∧ tree.excuse path .alreadyExists = .ok () ∧
      ∀ entered ∈ path.route tree.current, tree.node? entered = some .directory) ∨
    (∃ place ∈ path.route tree.current, place ≠ [] ∧
      tree.makeDir path = .ok (tree.put place .directory) ∧
      ∀ entered ∈ path.route tree.current,
        (tree.put place .directory).node? entered = some .directory) ∨
    tree.makeDir path = .error .notFound ∧
      ∃ entered ∈ Place.route (path.start tree.current) (names path).dropLast,
        tree.node? entered = none := by
  have hspot : tree.spot path = tree.walk (path.start tree.current) (names path) :=
    if_neg (by simpa using hempty)
  rcases walk_of_no_file hfree with ⟨place, hwalk⟩ | ⟨place, hplace, hwalk, hdirs⟩ | ⟨hwalk, hnone⟩
  · left
    have hfind : tree.find path = .ok (place, .directory) := find_directory_iff.2 ⟨hempty, hwalk⟩
    refine ⟨?_, ?_, (walk_directory_iff.1 hwalk).2⟩
    · rw [makeDir, hspot, hwalk]
      rfl
    · rw [excuse, isDirectory, hfind]
      rfl
  · right; left
    obtain ⟨hroot, -⟩ := walk_vacant hwalk
    refine ⟨place, hplace, hroot, ?_, fun entered hentered => ?_⟩
    · rw [makeDir, hspot, hwalk]
      rfl
    · rw [node?_put hroot]
      by_cases heq : entered = place
      · rw [if_pos heq]
      · rw [if_neg heq]
        exact hdirs entered hentered heq
  · right; right
    refine ⟨?_, hnone⟩
    rw [makeDir, hspot, hwalk]
    rfl

/-- Where nothing is in the way all directories are there after one is made, or
was there already, unless something is missing before it. -/
theorem makeDir_fits (hfits : Fits part tree goal) (hempty : path.text ≠ [])
    (hroute : ∀ entered ∈ path.route tree.current,
      part entered ∧ goal.node? entered = some .directory) :
    (∃ made, (tree.makeDir path = .ok made ∨ tree.makeDir path = .error .alreadyExists ∧
        tree.excuse path .alreadyExists = .ok () ∧ made = tree) ∧ Fits part made goal ∧
      ∀ entered ∈ path.route tree.current, made.node? entered = some .directory) ∨
    tree.makeDir path = .error .notFound ∧
      ∃ entered ∈ Place.route (path.start tree.current) (names path).dropLast,
        tree.node? entered = none := by
  have hfree : ∀ entered ∈ path.route tree.current, ∀ held,
      tree.node? entered ≠ some (.file held) := fun entered hentered =>
    hfits.ne_file (hroute entered hentered).1 (hroute entered hentered).2
  rcases makeDir_cases hempty hfree with ⟨hthere, hexcuse, hdirs⟩ |
      ⟨place, hplace, hroot, hmade, hdirs⟩ | hmissing
  · exact .inl ⟨tree, .inr ⟨hthere, hexcuse, rfl⟩, hfits, hdirs⟩
  · exact .inl ⟨_, .inl hmade, hfits.put_directory hroot (hroute place hplace).2, hdirs⟩
  · exact .inr hmissing

/-- Directories can be made where nothing is in the way, and then they are all
there. -/
theorem makeAll_succeeds {count : Nat} (hfits : Fits part tree goal)
    (hcount : path.text.length < count) (htrimmed : path.Trimmed)
    (hroute : ∀ entered ∈ path.route tree.current,
      part entered ∧ goal.node? entered = some .directory) :
    ∃ made, tree.makeAll (Path.ancestorsUpTo count path) = (.ok (), made) ∧
      Fits part made goal ∧
      ∀ entered ∈ path.route tree.current, made.node? entered = some .directory := by
  induction count generalizing path with
  | zero => omega
  | succ count ih =>
    rw [Path.ancestorsUpTo, makeAll]
    by_cases hstop : path.text.isEmpty ∨ path.parent? = none
    · -- there is nothing to enter
      have hdots : ∀ name ∈ names path, name = ".".toList := by
        rcases hstop with hempty | hnone
        · obtain ⟨text⟩ := path
          obtain rfl := List.isEmpty_iff.1 hempty
          simp [names, Path.splitSlashes]
        · exact names_of_parent?_none hnone
      refine ⟨tree, by rw [if_pos hstop], hfits, fun entered hentered => ?_⟩
      rw [Path.route, route_of_dots hdots] at hentered
      cases hentered
    · rw [if_neg hstop]
      obtain ⟨hempty, hsome⟩ := not_or.1 hstop
      obtain ⟨parent, hparent⟩ := Option.ne_none_iff_exists'.1 hsome
      have hne : path.text ≠ [] := by simpa using hempty
      rcases makeDir_fits hfits hne hroute with ⟨made, hmade, hsettled⟩ |
          ⟨hmissing, entered, hentered, hnone⟩
      · refine ⟨made, ?_, hsettled⟩
        rcases hmade with hmade | ⟨hthere, hexcuse, rfl⟩
        · rw [hmade]
        · rw [hthere]
          dsimp only
          rw [hexcuse]
      · -- what is missing before the last name is made first
        rcases extends_of_parent? hparent with ⟨hdots, -⟩ | ⟨before, name, after, hextends⟩
        · have hdrop : ∀ name ∈ (names path).dropLast, name = ".".toList := fun name hname =>
            hdots name (List.dropLast_subset _ hname)
          rw [route_of_dots hdrop] at hentered
          cases hentered
        · have hbefore := route_dropLast hextends htrimmed tree.current
          obtain ⟨made, hmade, hfitsMade, hdirs⟩ := ih (by have := hextends.length; omega)
            hextends.trimmed fun entered hentered =>
              hroute entered (route_parent_subset hparent _ hentered)
          have hcurrent : made.current = tree.current :=
            hfitsMade.current.symm.trans hfits.current
          rw [hmissing, hparent]
          dsimp only
          rw [hmade]
          dsimp only
          have hretry := makeDir_fits hfitsMade hne (hcurrent ▸ hroute)
          rw [hcurrent] at hretry
          rcases hretry with ⟨last, hlast, hsettled⟩ | ⟨-, missing, hmem, hnone⟩
          · refine ⟨last, ?_, hsettled⟩
            rcases hlast with hlast | ⟨hthere, hexcuse, rfl⟩
            · rw [hlast]
            · rw [hthere]
              dsimp only
              rw [hexcuse]
          · rw [hdirs missing (hbefore ▸ hmem)] at hnone
            cases hnone

/-- A file can be given a text in a directory that is there. -/
theorem write_succeeds (hnames : names path = list ++ [name]) (hname : IsName name)
    (hwants : wantsDirectory path = false)
    (hdirs : ∀ entered ∈ Place.route (path.start tree.current) list,
      tree.node? entered = some .directory)
    (hopen : tree.node? (path.place tree.current) ≠ some .directory) (content : Content) :
    tree.write path content = .ok (tree.put (path.place tree.current) (.file content)) := by
  have hempty : ¬path.text.isEmpty := by
    intro hnil
    obtain ⟨text⟩ := path
    obtain rfl := List.isEmpty_iff.1 hnil
    cases list <;> cases hnames
  have hplace : path.place tree.current =
      Place.follow (path.start tree.current) list ++ [name] := place_of_names hnames hname
  have hwalk : tree.walk (path.start tree.current) (list ++ [name]) =
      tree.walk (Place.follow (path.start tree.current) list) [name] :=
    walk_append_of_directory (walk_directory_iff.2 ⟨rfl, hdirs⟩)
  rw [walk_name hname, ← hplace] at hwalk
  have hspot : tree.spot path = tree.walk (path.start tree.current) (list ++ [name]) := by
    rw [spot, if_neg hempty, hnames]
    rfl
  rw [write, hspot, hwalk]
  rcases hnode : tree.node? (path.place tree.current) with _ | _ | held
  · simp [bind, Except.bind, hwants]
  · exact absurd hnode hopen
  · simp [bind, Except.bind, hwants]

/-- The path above a path that ends with a name. -/
theorem exists_parent (hnames : names path = list ++ [name]) (hname : IsName name) :
    ∃ parent, path.parent? = some parent ∧ parent.Trimmed ∧ parent.text.length < path.text.length ∧
      ∀ current, parent.route current = Place.route (path.start current) list := by
  have hlast : name ≠ ".".toList := hname.ne_here
  have htrimmed : path.Trimmed := fun hdot => by
    rw [hnames, List.getLast?_concat] at hdot
    exact absurd (Option.some.inj hdot) hlast
  have hcounts : ¬∀ other ∈ names path, other = ".".toList := fun hdots =>
    hlast (hdots name (by simp [hnames]))
  cases hparent : path.parent? with
  | none => exact absurd (names_of_parent?_none hparent) hcounts
  | some parent =>
    rcases extends_of_parent? hparent with ⟨hdots, -⟩ | ⟨before, other, after, hextends⟩
    · exact absurd hdots hcounts
    · refine ⟨parent, rfl, hextends.trimmed, hextends.length, fun current => ?_⟩
      rw [← route_dropLast hextends htrimmed current, hnames, List.dropLast_concat]

/-- A file can be saved where the goal has one. -/
theorem save_succeeds (hfits : Fits part tree goal) (hpath : LeadsWithin part goal path)
    (text : Text) :
    ∃ later, Disk.Ran (Disk.save path text) tree () later ∧ Fits part later goal := by
  obtain ⟨list, name, hnames, hname⟩ := hpath.ends
  obtain ⟨place, held, hfind⟩ := hpath.found
  have hpart := hpath.route
  obtain ⟨parent, hparent, htrimmed, hlength, hroute⟩ := exists_parent hnames hname
  have hwants := (find_file_iff.1 hfind).2
  obtain ⟨rfl, hnode, hdirs⟩ := (find_file_route hnames hname hwants).1 hfind
  rw [hfits.current] at hnode hdirs hpart
  have hmem := place_mem_route hnames hname tree.current
  have hbefore : ∀ entered ∈ parent.route tree.current,
      part entered ∧ goal.node? entered = some .directory := by
    intro entered hentered
    have hwhole := route_parent_subset hparent tree.current hentered
    exact ⟨hpart entered hwhole, hdirs entered (hroute tree.current ▸ hentered)⟩
  -- the directories on the way are made first
  obtain ⟨made, hmade, hfitsMade, hthere⟩ :=
    makeAll_succeeds hfits (Nat.lt_succ_self _) htrimmed hbefore
  have hcurrent : made.current = tree.current := hfitsMade.current.symm.trans hfits.current
  have hopen : made.node? (path.place made.current) ≠ some .directory := by
    rw [hcurrent]
    exact hfitsMade.ne_directory (hpart _ hmem) hnode
  have hwrite := write_succeeds hnames hname hwants
    (by rw [hcurrent, ← hroute]; exact hthere) hopen (.text text)
  rw [hcurrent] at hwrite
  have hroot : path.place tree.current ≠ [] := by
    rw [place_of_names hnames hname]
    simp
  refine ⟨_, ?_, hfitsMade.put_file hroot hnode (.text text)⟩
  rw [Disk.save, hparent]
  refine Disk.ran_bind.2 ⟨(), made, Disk.ran_step.2 hmade, Disk.ran_step.2 ?_⟩
  exact congrArg made.settle hwrite

/-- A file can be brought up to date where the goal has one. -/
theorem update_succeeds (hfits : Fits part tree goal) (hpath : LeadsWithin part goal path)
    (text : Text) :
    ∃ result later, Disk.Ran (Disk.update path text) tree result later ∧ Fits part later goal := by
  obtain ⟨later, hsave, hfitsLater⟩ := save_succeeds hfits hpath text
  have hread : Disk.Ran (ExceptT.lift (Disk.readText path) :
      DiskM (StateM FileTree) (Except DiskError Text)) tree (tree.readText path) tree :=
    Disk.ran_lift.2 rfl
  have hwrote : Disk.Ran (do Disk.save path text; return .written :
      DiskM (StateM FileTree) WriteResult) tree .written later :=
    Disk.ran_bind.2 ⟨(), later, hsave, Disk.ran_pure.2 ⟨rfl, rfl⟩⟩
  rcases hexisting : tree.readText path with error | existing
  · refine ⟨.written, later, ?_, hfitsLater⟩
    rw [hexisting] at hread
    exact Disk.ran_bind.2 ⟨_, tree, hread, hwrote⟩
  · rw [hexisting] at hread
    by_cases hsame : existing = text
    · refine ⟨.unchanged, tree, Disk.ran_bind.2 ⟨_, tree, hread, ?_⟩, hfits⟩
      dsimp only
      rw [if_pos hsame]
      exact Disk.ran_pure.2 ⟨rfl, rfl⟩
    · refine ⟨.written, later, Disk.ran_bind.2 ⟨_, tree, hread, ?_⟩, hfitsLater⟩
      dsimp only
      rw [if_neg hsame]
      exact hwrote

/-- A file that is there can be given a text. -/
theorem overwrite_succeeds {place : Place} {held : Content}
    (hfind : tree.find path = .ok (place, .file held)) (text : Text) :
    Disk.Ran (Disk.overwrite path text) tree () (tree.put place (.file (.text text))) := by
  obtain ⟨hspot, hwants⟩ := find_file_iff.1 hfind
  have hwrite : tree.write path (.text text) = .ok (tree.put place (.file (.text text))) := by
    rw [write, hspot]
    simp [bind, Except.bind, hwants]
  exact Disk.ran_step.2 (congrArg tree.settle hwrite)

end Succeeding

end FileTree

end InterfaceSchema
