import InterfaceSchema.Proofs.Disk.Steps
import InterfaceSchema.Run.Layout

/-!
# Source files below a directory

Source files are listed by paths that start with the directory they were
looked for in, without its single dots. Such a path leads to its file, ends
with the name of the file, and is seen from the directory as the names that
lead from there to the file, unless the directory is spelled with a leading
dot.
-/

namespace InterfaceSchema

/-- The directory that is searched, which is the root if none is given. -/
def Path.searched (directory : Path) : Path :=
  if directory.text.isEmpty then ⟨"/"⟩ else directory

/-- A directory that the paths to the files below it start with: one that is
given, and without a single dot at the start. -/
structure Path.Plain (directory : Path) : Prop where
  ne_nil : directory.text ≠ []
  ne_here : directory.components.head? ≠ some .here

namespace Disk

open FileTree

/-- The names of a directory that count. -/
def countedNames (directory : Path) : List Text := (names directory).filter fun name => name ≠ "."

/-- The path of a source file below a directory. -/
def sourcePath (directory : Path) (list : List Text) : Path :=
  ⟨stem directory ++ Text.joinWith "/" list⟩

/-- Whether names lead to a source file. -/
def endsAsSource (list : List Text) : Bool :=
  list.getLast?.any fun name => sourceEnding.isSuffixOf name

/-- The names that lead from a directory to the source files below it. -/
def sources (tree : FileTree) (directory : Path) : List (List Text) :=
  (tree.filesBelow directory.searched).filter endsAsSource

/-- Names that lead from a directory to something below it. -/
structure LeadDown (list : List Text) : Prop where
  ne_nil : list ≠ []
  isName : ∀ name ∈ list, IsName name

/-- Such names are not empty and hold no slashes. -/
theorem LeadDown.proper {list : List Text} (h : LeadDown list) :
    ∀ name ∈ list, name ≠ [] ∧ '/' ∉ name := fun name hname =>
  ⟨(h.isName name hname).ne_nil, (h.isName name hname).slash⟩

/-- Names that lead from a directory to a source file. -/
structure IsSource (tree : FileTree) (directory : Path) (list : List Text) : Prop where
  file : ∃ content,
    tree.node? (directory.searched.place tree.current ++ list) = some (.file content)
  ending : endsAsSource list = true

section Listing

variable {tree later : FileTree} {directory : Path} {list : List Text}

/-- Listing source files leaves the tree alone. -/
theorem sourceFiles_ok {ε : Type} {paths : List Path}
    (h : Ran (ExceptT.lift (sourceFiles directory) : ExceptT ε (StateM FileTree) (List Path))
      tree paths later) :
    paths = (sources tree directory).map (sourcePath directory) ∧ later = tree := by
  obtain ⟨hpaths, htree⟩ := Prod.mk.inj (ran_lift.1 h)
  exact ⟨hpaths.symm, htree.symm⟩

/-- Source files are listed below directories. -/
theorem find_of_mem_sources (h : list ∈ sources tree directory) :
    ∃ place, tree.find directory.searched = .ok (place, .directory) := by
  have hbelow := List.mem_of_mem_filter h
  rw [FileTree.filesBelow] at hbelow
  split at hbelow
  · next place hfind => exact ⟨place, hfind⟩
  · cases hbelow

/-- All source files below a directory are listed. -/
theorem mem_sources (htree : tree.WellFormed)
    (hfind : ∃ place, tree.find directory.searched = .ok (place, .directory)) :
    list ∈ sources tree directory ↔ IsSource tree directory list := by
  obtain ⟨place, hfind⟩ := hfind
  rw [sources, List.mem_filter, htree.mem_filesBelow hfind]
  exact ⟨fun ⟨hfile, hending⟩ => ⟨hfile, hending⟩, fun ⟨hfile, hending⟩ => ⟨hfile, hending⟩⟩

/-- What is listed is a source file. -/
theorem isSource_of_mem_sources (htree : tree.WellFormed) (h : list ∈ sources tree directory) :
    IsSource tree directory list := (mem_sources htree (find_of_mem_sources h)).1 h

/-- No source file is listed twice. -/
theorem nodup_sources (htree : tree.WellFormed) (directory : Path) :
    (sources tree directory).Nodup := (htree.nodup_filesBelow directory.searched).filter _

/-- A source file has a name. -/
theorem ne_nil_of_endsAsSource (h : endsAsSource list = true) : list ≠ [] := by
  rintro rfl
  cases h

/-- The names of a source file. -/
theorem IsSource.leadDown (htree : tree.WellFormed) (h : IsSource tree directory list) :
    LeadDown list := by
  obtain ⟨content, hnode⟩ := h.file
  exact ⟨ne_nil_of_endsAsSource h.ending,
    fun name hname => htree.isName_of_node? hnode name (List.mem_append_right _ hname)⟩

end Listing

section Pieces

variable {text : Text} {list pieces : List Text} {directory : Path}

/-- The components of a path are those of its names, behind its lead. -/
theorem components_eq (path : Path) :
    path.components = path.split.1.components ++ (names path).filterMap Path.component? := by
  have hnames (text : Text) : (Path.splitSlashes text).filterMap Path.component? =
      (names ⟨text⟩).filterMap Path.component? := by
    rw [names, List.filterMap_filter]
    refine List.filterMap_congr fun piece _ => ?_
    cases piece <;> rfl
  obtain ⟨text⟩ := path
  rw [Path.components, Path.split]
  dsimp only
  split
  · next rest =>
    rw [hnames]
    rfl
  · rfl
  · next rest =>
    have hdot := names_append ['.'] rest
    rw [List.singleton_append] at hdot
    rw [hdot, List.filterMap_append, ← hnames rest]
    rfl
  · rw [hnames]

/-- Names that count stand for components. -/
theorem component?_isSome {name : Text} (hne : name ≠ []) (hdot : name ≠ ".") :
    ∃ component, Path.component? name = some component ∧ component.text = name ∧
      component ≠ .root ∧ component ≠ .here := by
  rw [Path.component?, if_neg (show ¬(name = "" ∨ name = ".") from not_or.2 ⟨hne, hdot⟩)]
  split
  · next hup => exact ⟨.up, rfl, hup.symm, by simp, by simp⟩
  · exact ⟨.name name, rfl, rfl, by simp, by simp⟩

/-- The name of a file or directory is a component. -/
theorem component?_name {name : Text} (h : IsName name) :
    Path.component? name = some (.name name) := by
  rw [Path.component?, if_neg (show ¬(name = "" ∨ name = ".") from
    not_or.2 ⟨h.ne_nil, h.ne_here⟩), if_neg h.ne_up]

/-- Names of files and directories are components. -/
theorem filterMap_component?_names (h : ∀ name ∈ list, IsName name) :
    list.filterMap Path.component? = list.map Component.name := by
  rw [← List.filterMap_eq_map]
  exact List.filterMap_congr fun name hname => component?_name (h name hname)

/-- The names of a directory that count are not empty, not single dots and
hold no slashes. -/
theorem countedNames_proper (directory : Path) :
    ∀ name ∈ countedNames directory, name ≠ [] ∧ '/' ∉ name ∧ name ≠ "." := by
  intro name hname
  obtain ⟨hmem, hdot⟩ := List.mem_filter.1 hname
  obtain ⟨hne, hslash⟩ := names_proper directory name hmem
  exact ⟨hne, hslash, by simpa using hdot⟩

/-- The components that the path to a directory is spelled with. -/
theorem filterMap_component? (names : List Text) (h : ∀ name ∈ names, name ≠ []) :
    (names.filterMap Path.component?).map Component.text =
        names.filter (fun name : Text => name ≠ ".") ∧
      ∀ component ∈ names.filterMap Path.component?, component ≠ .root ∧ component ≠ .here := by
  induction names with
  | nil => simp
  | cons name rest ih =>
    obtain ⟨htexts, hplain⟩ := ih fun other hother => h other (List.mem_cons_of_mem _ hother)
    by_cases hdot : name = "."
    · have hnone : Path.component? name = none := by rw [hdot]; rfl
      rw [List.filterMap_cons_none hnone, List.filter_cons_of_neg (by simpa using hdot)]
      exact ⟨htexts, hplain⟩
    · obtain ⟨component, hsome, htext, hcomponent⟩ :=
        component?_isSome (h name List.mem_cons_self) hdot
      rw [List.filterMap_cons_some hsome, List.filter_cons_of_pos (by simpa using hdot),
        List.map_cons, htext, htexts]
      exact ⟨rfl, fun other hother => (List.mem_cons.1 hother).elim (· ▸ hcomponent) (hplain other)⟩

/-- Names with a slash after each of them, then other names. -/
theorem splitSlashes_flatMap {before : List Text} (h : ∀ name ∈ before, '/' ∉ name) (text : Text) :
    Path.splitSlashes (before.flatMap (· ++ ['/']) ++ text) =
      before ++ Path.splitSlashes text := by
  induction before with
  | nil => rfl
  | cons name rest ih =>
    rw [List.flatMap_cons, List.append_assoc, List.append_assoc, List.singleton_append,
      splitSlashes_append, splitSlashes_eq_self (h name List.mem_cons_self),
      ih fun other hother => h other (List.mem_cons_of_mem _ hother)]
    rfl

/-- Names with slashes between them. -/
theorem splitSlashes_joinWith (hne : list ≠ []) (h : ∀ name ∈ list, '/' ∉ name) :
    Path.splitSlashes (Text.joinWith "/" list) = list := by
  induction list with
  | nil => exact absurd rfl hne
  | cons name rest ih =>
    have hname := splitSlashes_eq_self (h name List.mem_cons_self)
    cases rest with
    | nil => simpa using hname
    | cons second more =>
      rw [joinWith_names, splitSlashes_append, hname,
        ih (by simp) fun other hother => h other (List.mem_cons_of_mem _ hother)]
      rfl

/-- Whether the path to a source file starts at the root. -/
def startsAtRoot (directory : Path) : Bool := directory.isAbsolute || directory.text.isEmpty

/-- How the path to a directory is spelled. -/
theorem stem_eq (directory : Path) :
    stem directory = (if startsAtRoot directory then ['/'] else []) ++
      (countedNames directory).flatMap (· ++ ['/']) := by
  have hne : ∀ name ∈ names directory, name ≠ [] := fun name hname =>
    (names_proper directory name hname).1
  obtain ⟨htexts, hplain⟩ := filterMap_component? (names directory) hne
  have hlead : directory.split.1.components.filter (fun component =>
      component ≠ Component.root ∧ component ≠ Component.here) = [] := by
    cases directory.split.1 <;> rfl
  have hkept : ((names directory).filterMap Path.component?).filter (fun component =>
      component ≠ Component.root ∧ component ≠ Component.here) =
        (names directory).filterMap Path.component? :=
    List.filter_eq_self.2 fun component hcomponent => by simpa using hplain component hcomponent
  rw [stem, components_eq, List.filter_append, hlead, hkept, List.nil_append, countedNames,
    ← htexts, List.flatMap_map, startsAtRoot]
  congr 1
  simp

/-- The pieces of the path to a source file. -/
theorem splitSlashes_source (directory : Path) (h : LeadDown list) :
    Path.splitSlashes ((countedNames directory).flatMap (· ++ ['/']) ++ Text.joinWith "/" list) =
      countedNames directory ++ list := by
  rw [splitSlashes_flatMap (fun name hname => (countedNames_proper directory name hname).2.1),
    splitSlashes_joinWith h.ne_nil fun name hname => (h.isName name hname).slash]

/-- The names on the way to a source file count. -/
theorem countedNames_append_proper (directory : Path) (h : LeadDown list) :
    ∀ name ∈ countedNames directory ++ list, name ≠ [] ∧ name ≠ "." := by
  intro name hname
  rcases List.mem_append.1 hname with hname | hname
  · obtain ⟨hne, -, hdot⟩ := countedNames_proper directory name hname
    exact ⟨hne, hdot⟩
  · exact ⟨(h.isName name hname).ne_nil, (h.isName name hname).ne_here⟩

/-- The lead and the pieces of the path to a source file. -/
theorem split_sourcePath (directory : Path) (h : LeadDown list) :
    (sourcePath directory list).split =
      (if startsAtRoot directory then .root else .none, countedNames directory ++ list) := by
  have hpieces := splitSlashes_source directory h
  rw [sourcePath, stem_eq, Path.split]
  cases startsAtRoot directory
  · -- the first piece is neither empty nor a single dot
    have hfirst : ∀ piece rest, countedNames directory ++ list = piece :: rest →
        piece ≠ [] ∧ piece ≠ "." := fun piece rest heq =>
      countedNames_append_proper directory h piece (heq ▸ List.mem_cons_self)
    simp only [Bool.false_eq_true, if_false, List.nil_append]
    generalize (countedNames directory).flatMap (· ++ ['/']) ++ Text.joinWith "/" list = text
      at hpieces
    split
    · next rest =>
      exact absurd rfl (hfirst [] _ (hpieces.symm.trans rfl)).1
    · exact absurd rfl (hfirst ['.'] _ (hpieces.symm.trans rfl)).2
    · next rest =>
      exact absurd rfl (hfirst ['.'] _ (hpieces.symm.trans (splitSlashes_append ['.'] rest))).2
    · rw [hpieces]
  · simp only [if_true, List.cons_append, List.nil_append]
    rw [hpieces]

/-- Paths that start at the root lead from the root. -/
theorem isAbsolute_eq_split (path : Path) : path.isAbsolute = decide (path.split.1 = .root) := by
  obtain ⟨text⟩ := path
  rw [Path.split, Path.isAbsolute]
  dsimp only
  split
  · rfl
  · rfl
  · rfl
  · next hroot _ _ =>
    cases text with
    | nil => rfl
    | cons c rest =>
      have hc : c ≠ '/' := fun heq => hroot rest (heq ▸ rfl)
      simp [hc]

/-- The names of a path that does not start with a single dot are its
pieces. -/
theorem names_eq_split {path : Path} (h : path.split.1 ≠ .here) :
    names path = path.split.2.filter fun name => !name.isEmpty := by
  obtain ⟨text⟩ := path
  rw [Path.split] at h ⊢
  dsimp only at h ⊢
  split at h
  · exact names_append [] _
  · exact absurd rfl h
  · exact absurd rfl h
  · rfl

end Pieces

section Paths

variable {directory : Path} {list : List Text}

/-- The names of the path to a source file. -/
theorem names_sourcePath (directory : Path) (h : LeadDown list) :
    names (sourcePath directory list) = countedNames directory ++ list := by
  have hsplit := split_sourcePath directory h
  rw [names_eq_split (by rw [hsplit]; cases startsAtRoot directory <;> simp), hsplit]
  refine List.filter_eq_self.2 fun name hname => ?_
  simpa using (countedNames_append_proper directory h name hname).1

/-- The path to a source file starts where the path to the directory does. -/
theorem isAbsolute_sourcePath (directory : Path) (h : LeadDown list) :
    (sourcePath directory list).isAbsolute = startsAtRoot directory := by
  rw [isAbsolute_eq_split, split_sourcePath directory h]
  cases startsAtRoot directory <;> rfl

/-- The path to a source file leads to it. -/
theorem place_sourcePath (current : Place) (directory : Path) (h : LeadDown list) :
    (sourcePath directory list).place current = directory.searched.place current ++ list := by
  rw [Path.place, names_sourcePath directory h, isAbsolute_sourcePath directory h,
    Place.follow_append, Place.follow_names h.isName, countedNames, Place.follow_filter,
    Path.searched]
  by_cases hempty : directory.text.isEmpty
  · obtain ⟨text⟩ := directory
    obtain rfl := List.isEmpty_iff.1 hempty
    rfl
  · rw [if_neg hempty, Path.place, startsAtRoot]
    simp [hempty]

/-- The pieces that count are not among those that are dropped. -/
theorem dropPieces_append {before : List Text}
    (hbefore : ∀ name ∈ before, (Path.component? name).isSome)
    (hlist : ∀ name ∈ list, (Path.component? name).isSome) :
    Path.dropPieces before.length (before ++ list) = list := by
  induction before with
  | nil =>
    cases list with
    | nil => rfl
    | cons name rest =>
      have hname := hlist name List.mem_cons_self
      simp [Path.dropPieces, Option.isSome_iff_ne_none.1 hname]
  | cons name rest ih =>
    have hname := hbefore name List.mem_cons_self
    rw [List.cons_append, List.length_cons, Path.dropPieces,
      if_neg (by simp [Option.isSome_iff_ne_none.1 hname])]
    exact ih fun other hother => hbefore other (List.mem_cons_of_mem _ hother)

/-- Nothing is trimmed off pieces that count. -/
theorem trimPieces_eq_self (h : ∀ name ∈ list, (Path.component? name).isSome) :
    Path.trimPieces list = list := by
  rw [Path.trimPieces]
  cases hlist : list.reverse with
  | nil => simpa using hlist
  | cons last before =>
    have hlast := h last (List.mem_reverse.1 (hlist ▸ List.mem_cons_self))
    rw [List.dropWhile_cons_of_neg (by simp [Option.isSome_iff_ne_none.1 hlast]), ← hlist,
      List.reverse_reverse]

/-- The components of the path to a source file. -/
theorem components_sourcePath (directory : Path) (h : LeadDown list) :
    (sourcePath directory list).components =
      (if startsAtRoot directory then [Component.root] else []) ++
        ((countedNames directory).filterMap Path.component? ++ list.map Component.name) := by
  rw [Path.components, split_sourcePath directory h, ← filterMap_component?_names h.isName,
    ← List.filterMap_append]
  cases startsAtRoot directory <;> rfl

/-- The components of a directory that paths start with. -/
theorem components_of_plain (hplain : directory.Plain) :
    directory.components = (if startsAtRoot directory then [Component.root] else []) ++
      (countedNames directory).filterMap Path.component? := by
  have hnames : (countedNames directory).filterMap Path.component? =
      (names directory).filterMap Path.component? := by
    rw [countedNames, List.filterMap_filter]
    refine List.filterMap_congr fun name _ => ?_
    by_cases hdot : name = "."
    · rw [hdot]; rfl
    · rw [if_pos (by simpa using hdot)]
  have hroot : startsAtRoot directory = decide (directory.split.1 = .root) := by
    rw [startsAtRoot, isAbsolute_eq_split]
    simp [hplain.ne_nil]
  have hhere := hplain.ne_here
  rw [Disk.components_eq] at hhere ⊢
  rw [hnames, hroot]
  cases hlead : directory.split.1 with
  | none => rfl
  | root => rfl
  | here => simp [hlead, Path.Lead.components] at hhere

/-- A source file as seen from the directory it was looked for in. -/
theorem relativeInput_sourcePath (hplain : directory.Plain) (h : LeadDown list) :
    relativeInput (sourcePath directory list) directory = ⟨Text.joinWith "/" list⟩ := by
  have hcounts : ∀ name ∈ countedNames directory ++ list, (Path.component? name).isSome := by
    intro name hname
    obtain ⟨hne, hdot⟩ := countedNames_append_proper directory h name hname
    obtain ⟨component, hsome, -⟩ := component?_isSome hne hdot
    rw [hsome]
    rfl
  have hbefore : ∀ name ∈ countedNames directory, (Path.component? name).isSome := fun name hname =>
    hcounts name (List.mem_append_left _ hname)
  have hlist : ∀ name ∈ list, (Path.component? name).isSome := fun name hname =>
    hcounts name (List.mem_append_right _ hname)
  have hlength : ((countedNames directory).filterMap Path.component?).length =
      (countedNames directory).length := List.filterMap_length_eq_length.2 hbefore
  have hrest : Path.unsplit .none (Path.trimPieces list) = ⟨Text.joinWith "/" list⟩ := by
    rw [trimPieces_eq_self hlist]
    rfl
  have hprefix : directory.components.isPrefixOf (sourcePath directory list).components = true := by
    rw [components_of_plain hplain, components_sourcePath directory h, List.isPrefixOf_iff_prefix,
      ← List.append_assoc]
    exact List.prefix_append _ _
  rw [relativeInput, Path.relativeTo?, if_pos hprefix, split_sourcePath directory h,
    components_of_plain hplain]
  dsimp only
  cases hroot : startsAtRoot directory
  · simp only [Bool.false_eq_true, if_false, List.nil_append, Path.Lead.components, List.length_nil,
      Nat.sub_zero, hlength, dropPieces_append hbefore hlist]
    split
    · next hempty =>
      rw [List.isEmpty_iff] at hempty
      have hnone : countedNames directory = [] := by
        rw [hempty] at hlength
        exact List.eq_nil_of_length_eq_zero hlength.symm
      rw [hnone, List.nil_append, hrest]
      rfl
    · rw [hrest]
      rfl
  · simp only [if_true, List.cons_append, List.nil_append, List.isEmpty_cons, Bool.false_eq_true,
      if_false, Path.Lead.components, List.length_cons, List.length_nil, Nat.zero_add,
      Nat.add_sub_cancel, hlength, dropPieces_append hbefore hlist]
    rw [hrest]
    rfl

/-- The paths of different source files below a directory are different. -/
theorem sourcePath_injective {other : List Text} (h : LeadDown list) (hother : LeadDown other)
    (heq : sourcePath directory list = sourcePath directory other) : list = other := by
  have hjoin := List.append_cancel_left (congrArg Path.text heq)
  rw [← names_joinWith h.proper, ← names_joinWith hother.proper, hjoin]

/-- The file name of a source file. -/
theorem fileName?_sourcePath (directory : Path) (h : LeadDown list) :
    (sourcePath directory list).fileName? = some (list.getLast h.ne_nil) := by
  have hlast : ((if startsAtRoot directory then [Component.root] else []) ++
      ((countedNames directory).filterMap Path.component? ++ list.map Component.name)).getLast? =
        some (.name (list.getLast h.ne_nil)) := by
    rw [← List.append_assoc, List.getLast?_append, List.getLast?_map,
      List.getLast?_eq_some_getLast h.ne_nil]
    rfl
  rw [Path.fileName?, components_sourcePath directory h, hlast]

/-- The file name of a source file without its extension. -/
theorem fileStem?_sourcePath (directory : Path) (h : LeadDown list) :
    (sourcePath directory list).fileStem? = some (stemOf (list.getLast h.ne_nil)) := by
  rw [Path.fileStem?, fileName?_sourcePath directory h]
  rfl

end Paths

end Disk

end InterfaceSchema
