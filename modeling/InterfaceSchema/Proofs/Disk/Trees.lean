import InterfaceSchema.Proofs.Disk.Places
import Mathlib.Data.Char
import Mathlib.Data.List.Lex

/-!
# What stands in a tree

The nodes of a tree are kept sorted, so a place has one node at most: putting
a node somewhere and removing a directory change what stands at the places
they concern and nothing else. A path that leads to a file leads to what
stands at its place, and the files below a directory are listed without
repetition.
-/

namespace InterfaceSchema.FileTree

section Order

/-- Places are sorted like words in a dictionary. -/
theorem before_iff (first second : Place) : before first second = true ↔ first < second := by
  induction first generalizing second with
  | nil => cases second <;> simp [before]
  | cons a as ih =>
    cases second with
    | nil => simp [before]
    | cons b bs =>
      rw [before, List.cons_lt_cons_iff]
      split
      · next heq => simp [heq, ih]
      · next hne => simp [hne]

variable {place other : Place} {node : Node} {nodes : List (Place × Node)}

/-- The first entry is looked at first. -/
theorem lookup_cons (other : Place) (head : Place × Node) (rest : List (Place × Node)) :
    (head :: rest).lookup other = if other = head.1 then some head.2 else rest.lookup other := by
  rw [List.lookup_cons]
  by_cases h : other = head.1
  · simp [h]
  · simp [h, beq_false_of_ne h]

/-- What stands at a place after a node was put somewhere. -/
theorem lookup_insertNode (place other : Place) (node : Node) (nodes : List (Place × Node)) :
    (insertNode place node nodes).lookup other =
      if other = place then some node else nodes.lookup other := by
  induction nodes with
  | nil => rw [insertNode, lookup_cons]
  | cons head rest ih =>
    rw [insertNode]
    split
    · next heq =>
      subst heq
      rw [lookup_cons, lookup_cons]
      split <;> rfl
    · next hne =>
      split
      · exact lookup_cons other (place, node) (head :: rest)
      · rw [lookup_cons, lookup_cons, ih]
        by_cases h : other = head.1
        · rw [if_pos h, if_pos h, if_neg fun heq => hne (h.symm.trans heq)]
        · rw [if_neg h, if_neg h]

/-- What stands at a place if some places are left out. -/
theorem lookup_filter (keep : Place → Bool) (other : Place) (nodes : List (Place × Node)) :
    (nodes.filter fun entry => keep entry.1).lookup other =
      if keep other then nodes.lookup other else none := by
  induction nodes with
  | nil => simp
  | cons head rest ih =>
    rw [List.filter_cons, lookup_cons]
    by_cases heq : other = head.1
    · rw [heq] at ih ⊢
      cases hkeep : keep head.1
      · rw [if_neg (by simp), ih, hkeep]
        simp
      · rw [if_pos rfl, lookup_cons]
        simp
    · rw [if_neg heq]
      split
      · rw [lookup_cons, if_neg heq, ih]
      · exact ih

/-- The entries after a node was put somewhere. -/
theorem mem_insertNode {entry : Place × Node} (h : entry ∈ insertNode place node nodes) :
    entry = (place, node) ∨ entry ∈ nodes := by
  induction nodes with
  | nil => exact .inl (List.mem_singleton.1 h)
  | cons head rest ih =>
    rw [insertNode] at h
    split at h
    · exact (List.mem_cons.1 h).imp_right (List.mem_cons_of_mem head)
    · split at h
      · exact List.mem_cons.1 h
      · rcases List.mem_cons.1 h with rfl | h
        · exact .inr List.mem_cons_self
        · exact (ih h).imp_right (List.mem_cons_of_mem head)

/-- Entries stay sorted when a node is put among them. -/
theorem sorted_insertNode (h : nodes.Pairwise fun first second => first.1 < second.1) :
    (insertNode place node nodes).Pairwise fun first second => first.1 < second.1 := by
  induction nodes with
  | nil => exact List.pairwise_singleton _ _
  | cons head rest ih =>
    obtain ⟨hhead, hrest⟩ := List.pairwise_cons.1 h
    rw [insertNode]
    split
    · next heq => exact List.pairwise_cons.2 ⟨fun entry hentry => heq ▸ hhead entry hentry, hrest⟩
    · next hne =>
      split
      · next hbefore =>
        have hlt := (before_iff place head.1).1 hbefore
        refine List.pairwise_cons.2 ⟨fun entry hentry => ?_, h⟩
        rcases List.mem_cons.1 hentry with rfl | hentry
        · exact hlt
        · exact hlt.trans (hhead entry hentry)
      · next hbefore =>
        -- the place is neither the first one nor before it
        have hlt : head.1 < place := (lt_or_gt_of_ne hne).resolve_right fun hgt =>
          hbefore ((before_iff place head.1).2 hgt)
        refine List.pairwise_cons.2 ⟨fun entry hentry => ?_, ih hrest⟩
        rcases mem_insertNode hentry with rfl | hentry
        · exact hlt
        · exact hhead entry hentry

/-- Sorted entries are what stands at their places. -/
theorem lookup_eq_some_iff (h : nodes.Pairwise fun first second => first.1 < second.1) :
    nodes.lookup place = some node ↔ (place, node) ∈ nodes := by
  induction nodes with
  | nil => simp
  | cons head rest ih =>
    obtain ⟨hhead, hrest⟩ := List.pairwise_cons.1 h
    by_cases heq : place = head.1
    · have hnone : (place, node) ∉ rest := fun hmem => (hhead _ hmem).ne heq.symm
      rw [lookup_cons, if_pos heq]
      simp [heq, Prod.ext_iff, eq_comm, heq ▸ hnone]
    · have hne : (place, node) ≠ head := fun h => heq (congrArg Prod.fst h)
      simp [lookup_cons, heq, ih hrest, hne]

end Order

/-- What holds of every tree of files: each place is listed once, and places
are made up of names. -/
structure WellFormed (tree : FileTree) : Prop where
  sorted : tree.nodes.Pairwise fun first second => first.1 < second.1
  ne_root : ∀ entry ∈ tree.nodes, entry.1 ≠ []
  isName : ∀ entry ∈ tree.nodes, ∀ name ∈ entry.1, IsName name
  isName_current : ∀ name ∈ tree.current, IsName name

/-- Trees can be checked. -/
instance (tree : FileTree) : Decidable tree.WellFormed :=
  decidable_of_iff ((tree.nodes.Pairwise fun first second => first.1 < second.1) ∧
      (∀ entry ∈ tree.nodes, entry.1 ≠ []) ∧
      (∀ entry ∈ tree.nodes, ∀ name ∈ entry.1, IsName name) ∧ ∀ name ∈ tree.current, IsName name)
    ⟨fun ⟨hsorted, hroot, hname, hcurrent⟩ => ⟨hsorted, hroot, hname, hcurrent⟩,
      fun ⟨hsorted, hroot, hname, hcurrent⟩ => ⟨hsorted, hroot, hname, hcurrent⟩⟩

section Nodes

variable {tree : FileTree} {place other : Place} {node : Node}

/-- What stands at a place after a node was put somewhere. -/
theorem node?_put (hroot : place ≠ []) (tree : FileTree) (node : Node) (other : Place) :
    (tree.put place node).node? other = if other = place then some node else tree.node? other := by
  rw [node?, node?, put, lookup_insertNode]
  by_cases h : other = []
  · rw [if_pos h, if_pos h, if_neg fun heq => hroot (heq.symm.trans h)]
  · rw [if_neg h, if_neg h]

/-- What stands at a place after something was removed. -/
theorem node?_remove (tree : FileTree) (place other : Place) :
    (tree.remove place).node? other =
      if place <+: other ∧ other ≠ [] then none else tree.node? other := by
  rw [node?, node?, remove, lookup_filter (fun found => !place.isPrefixOf found)]
  by_cases hroot : other = []
  · simp [hroot]
  · by_cases hbelow : place <+: other
    · simp [hroot, hbelow]
    · have hfalse : place.isPrefixOf other = false :=
        Bool.eq_false_iff.2 (mt List.isPrefixOf_iff_prefix.1 hbelow)
      simp [hroot, hbelow, hfalse]

/-- The entries are what stands somewhere. -/
theorem WellFormed.mem_nodes (htree : tree.WellFormed) :
    (place, node) ∈ tree.nodes ↔ place ≠ [] ∧ tree.node? place = some node := by
  rw [node?, ← lookup_eq_some_iff htree.sorted]
  constructor
  · intro h
    have hroot := htree.ne_root _ ((lookup_eq_some_iff htree.sorted).1 h)
    exact ⟨hroot, by rw [if_neg hroot, h]⟩
  · rintro ⟨hroot, h⟩
    rwa [if_neg hroot] at h

/-- A place where a file stands is made up of names. -/
theorem WellFormed.isName_of_node? (htree : tree.WellFormed) {content : Content}
    (h : tree.node? place = some (.file content)) : ∀ name ∈ place, IsName name := by
  have hroot : place ≠ [] := by
    rintro rfl
    simp [node?] at h
  exact htree.isName _ (htree.mem_nodes.2 ⟨hroot, h⟩)

/-- A path leads to a place made up of names. -/
theorem WellFormed.isName_place (htree : tree.WellFormed) (path : Path) :
    ∀ name ∈ path.place tree.current, IsName name := by
  refine Place.isName_follow ?_ (names_proper path)
  split
  · simp
  · exact htree.isName_current

/-- Putting a node at a place made up of names. -/
theorem WellFormed.put (htree : tree.WellFormed) (hroot : place ≠ [])
    (hplace : ∀ name ∈ place, IsName name) : (tree.put place node).WellFormed where
  sorted := sorted_insertNode htree.sorted
  ne_root entry hentry := by
    rcases mem_insertNode hentry with rfl | hentry
    · exact hroot
    · exact htree.ne_root entry hentry
  isName entry hentry := by
    rcases mem_insertNode hentry with rfl | hentry
    · exact hplace
    · exact htree.isName entry hentry
  isName_current := htree.isName_current

/-- Removing a place and all below it. -/
theorem WellFormed.remove (htree : tree.WellFormed) (place : Place) :
    (tree.remove place).WellFormed where
  sorted := htree.sorted.filter _
  ne_root entry hentry := htree.ne_root entry (List.mem_of_mem_filter hentry)
  isName entry hentry := htree.isName entry (List.mem_of_mem_filter hentry)
  isName_current := htree.isName_current

end Nodes

section Walk

variable {tree : FileTree} {here place : Place} {list : List Text} {path : Path}
  {content : Content}

/-- What is missing is missing in the tree, and is not the root. -/
theorem walk_vacant (h : tree.walk here list = .ok (.vacant place)) :
    place ≠ [] ∧ tree.node? place = none := by
  induction list generalizing here with
  | nil => cases h
  | cons name rest ih =>
    rw [walk] at h
    split at h
    · exact ih h
    · split at h
      · exact ih h
      · split at h
        · exact ih h
        · split at h <;> cases h
        · next hnode =>
          split at h
          · cases h
            exact ⟨by simp, hnode⟩
          · cases h

/-- A file that is found stands in the tree. -/
theorem walk_file (h : tree.walk here list = .ok (.taken place (.file content))) :
    tree.node? place = some (.file content) := by
  induction list generalizing here with
  | nil => cases h
  | cons name rest ih =>
    rw [walk] at h
    split at h
    · exact ih h
    · split at h
      · exact ih h
      · split at h
        · exact ih h
        · next hnode =>
          split at h
          · cases h
            exact hnode
          · cases h
        · split at h <;> cases h

/-- Names that lead on behind others lead there from a directory. -/
theorem walk_append {first second : List Text} {spot : Spot} (hsecond : second ≠ [])
    (h : tree.walk here (first ++ second) = .ok spot) :
    ∃ place, tree.walk here first = .ok (.taken place .directory) := by
  have hrest (rest : List Text) : (rest ++ second).isEmpty = false := by
    cases rest <;> simp [hsecond]
  induction first generalizing here with
  | nil => exact ⟨here, rfl⟩
  | cons name rest ih =>
    rw [List.cons_append, walk, hrest] at h
    rw [walk]
    split at h
    · next hdot => rw [if_pos hdot]; exact ih h
    · next hdot =>
      rw [if_neg hdot]
      split at h
      · next hup => rw [if_pos hup]; exact ih h
      · next hup =>
        rw [if_neg hup]
        split at h
        · exact ih h
        · cases h
        · cases h

/-- Something that is found below a directory is found through it. -/
theorem find_of_find_join {base : Path} {found : Place × Node} (hbase : base.text ≠ [])
    (habs : path.isAbsolute = false) (hnames : names path ≠ [])
    (h : tree.find (base.join path) = .ok found) :
    ∃ place, tree.find base = .ok (place, .directory) := by
  have hspot : ∃ goal, tree.spot (base.join path) = .ok goal := by
    rw [find] at h
    cases hgoal : tree.spot (base.join path) with
    | error cause => simp [hgoal, bind, Except.bind] at h
    | ok goal => exact ⟨goal, rfl⟩
  obtain ⟨goal, hgoal⟩ := hspot
  rw [spot, origin, isAbsolute_join base habs, names_join base habs] at hgoal
  split at hgoal
  · cases hgoal
  · obtain ⟨place, hplace⟩ := walk_append hnames hgoal
    refine ⟨place, ?_⟩
    rw [find, spot, if_neg (by simpa using hbase), origin, hplace]
    rfl

/-- Finding a file is finding it under its names, with no slash at the end. -/
theorem find_file_iff : tree.find path = .ok (place, .file content) ↔
    tree.spot path = .ok (.taken place (.file content)) ∧ wantsDirectory path = false := by
  rw [find]
  cases hspot : tree.spot path with
  | error cause => simp [bind, Except.bind]
  | ok spot =>
    rcases spot with ⟨found, _ | held⟩ | found
    · simp [bind, Except.bind]
    · cases hwants : wantsDirectory path <;> simp [bind, Except.bind]
    · simp [bind, Except.bind]

/-- A file is found at the place of the path. -/
theorem find_file (h : tree.find path = .ok (place, .file content)) :
    place = path.place tree.current ∧ tree.node? place = some (.file content) := by
  have hspot := (find_file_iff.1 h).1
  refine ⟨spot_place hspot, ?_⟩
  rw [spot] at hspot
  split at hspot
  · cases hspot
  · exact walk_file hspot

/-- A directory is found at the place of the path. -/
theorem find_directory (h : tree.find path = .ok (place, .directory)) :
    place = path.place tree.current := by
  rw [find] at h
  cases hspot : tree.spot path with
  | error cause => simp [hspot, bind, Except.bind] at h
  | ok spot =>
    have hplace := spot_place hspot
    rcases spot with ⟨found, _ | held⟩ | found
    · simp only [hspot, bind, Except.bind, Except.ok.injEq, Prod.mk.injEq, and_true] at h
      exact h ▸ hplace
    · cases hwants : wantsDirectory path <;> simp [hspot, hwants, bind, Except.bind] at h
    · simp [hspot, bind, Except.bind] at h

/-- The text that is read is that of the file at the place of the path. -/
theorem readText_ok {text : Text} (h : tree.readText path = .ok text) :
    tree.find path = .ok (path.place tree.current, .file (.text text)) := by
  rw [readText, read] at h
  cases hfind : tree.find path with
  | error cause => simp [hfind, bind, Except.bind] at h
  | ok found =>
    obtain ⟨place, _ | _ | _⟩ := found
    · simp [hfind, bind, Except.bind] at h
    · next held =>
      obtain rfl : held = text := by simpa [hfind, bind, Except.bind] using h
      rw [(find_file hfind).1]
    · simp [hfind, bind, Except.bind] at h

/-- The files that are listed below a directory. -/
theorem WellFormed.mem_filesBelow (htree : tree.WellFormed)
    (hfind : tree.find path = .ok (place, .directory)) {list : List Text} :
    list ∈ tree.filesBelow path ↔
      ∃ content, tree.node? (path.place tree.current ++ list) = some (.file content) := by
  obtain rfl := find_directory hfind
  rw [filesBelow, hfind]
  simp only [List.mem_filterMap]
  constructor
  · rintro ⟨⟨found, _ | content⟩, hentry, hbelow⟩
    · simp [fileBelow?] at hbelow
    · rw [fileBelow?] at hbelow
      split at hbelow
      · next hprefix =>
        cases hbelow
        rw [List.prefix_iff_eq_append.1 (List.isPrefixOf_iff_prefix.1 hprefix)]
        exact ⟨content, (htree.mem_nodes.1 hentry).2⟩
      · cases hbelow
  · rintro ⟨content, hnode⟩
    have hroot : path.place tree.current ++ list ≠ [] := by
      intro heq
      simp [heq, node?] at hnode
    exact ⟨_, htree.mem_nodes.2 ⟨hroot, hnode⟩, by simp [fileBelow?]⟩

/-- No file is listed twice. -/
theorem WellFormed.nodup_filesBelow (htree : tree.WellFormed) (path : Path) :
    (tree.filesBelow path).Nodup := by
  rw [filesBelow]
  split
  · next place _ =>
    have hpair : tree.nodes.Pairwise fun first second => first.1 ≠ second.1 :=
      htree.sorted.imp fun hlt => hlt.ne
    refine List.Pairwise.filterMap (fileBelow? place) ?_ hpair
    rintro ⟨first, _ | held⟩ ⟨second, _ | other⟩ hne one hone two htwo <;>
      simp only [fileBelow?, reduceCtorEq] at hone htwo
    split at hone
    · next hfirst =>
      split at htwo
      · next hsecond =>
        cases hone
        cases htwo
        intro heq
        refine hne ?_
        dsimp only
        rw [← List.prefix_iff_eq_append.1 (List.isPrefixOf_iff_prefix.1 hfirst),
          ← List.prefix_iff_eq_append.1 (List.isPrefixOf_iff_prefix.1 hsecond), heq]
      · cases htwo
    · cases hone
  · exact List.nodup_nil

end Walk

/-- A tree in which everything stands in a directory. -/
def Rooted (tree : FileTree) : Prop :=
  ∀ place name node, tree.node? (place ++ [name]) = some node → tree.node? place = some .directory

section Rooted

variable {tree : FileTree} {here place : Place} {list below : List Text} {path : Path} {node : Node}

/-- There are directories on the way to everything. -/
theorem Rooted.directory (hrooted : tree.Rooted) (hbelow : below ≠ [])
    (h : tree.node? (place ++ below) = some node) : tree.node? place = some .directory := by
  induction below generalizing place with
  | nil => exact absurd rfl hbelow
  | cons name rest ih =>
    by_cases hrest : rest = []
    · exact hrooted place name node (hrest ▸ h)
    · exact hrooted place name _ (ih hrest (by rwa [List.append_assoc]))

/-- Without double dots, and without a single dot at the end, names lead to
what stands there and to what stands above something. -/
theorem Rooted.walk (hrooted : tree.Rooted) (hup : "..".toList ∉ list)
    (hlast : list.getLast? ≠ some ".".toList)
    (h : tree.node? (Place.follow here list ++ below) = some node) :
    ∃ found, tree.walk here list = .ok (.taken (Place.follow here list) found) := by
  induction list generalizing here with
  | nil => exact ⟨.directory, rfl⟩
  | cons name rest ih =>
    obtain ⟨hname, hrest⟩ := not_or.1 (mt List.mem_cons.2 hup)
    have hlastRest : rest.getLast? ≠ some ".".toList := fun heq => hlast (by
      rw [List.getLast?_cons, heq]; rfl)
    rw [Place.follow, if_neg (Ne.symm hname)] at h ⊢
    rw [FileTree.walk, if_neg (Ne.symm hname)]
    by_cases hdot : name = "."
    · rw [if_pos hdot] at h ⊢
      rw [if_pos hdot]
      exact ih hrest hlastRest h
    · rw [if_neg hdot] at h ⊢
      rw [if_neg hdot]
      by_cases hend : rest = [] ∧ below = []
      · obtain ⟨rfl, rfl⟩ := hend
        rw [Place.follow, List.append_nil] at h
        rw [h]
        cases node with
        | directory => exact ⟨.directory, rfl⟩
        | file content => exact ⟨.file content, rfl⟩
      · -- something stands below, so there is a directory here
        have hdir : tree.node? (here ++ [name]) = some .directory := by
          have hway := h
          rw [Place.follow_of_up_notMem hrest, List.append_assoc] at hway
          refine hrooted.directory (fun hnil => hend ?_) hway
          obtain ⟨hfilter, hbelow⟩ := List.append_eq_nil_iff.1 hnil
          refine ⟨Classical.byContradiction fun hsome => ?_, hbelow⟩
          have hmem := List.getLast_mem hsome
          have hcounts : rest.getLast hsome ≠ ".".toList := fun heq =>
            hlastRest ((List.getLast?_eq_some_getLast hsome).trans (congrArg some heq))
          exact List.not_mem_nil (hfilter ▸ List.mem_filter.2 ⟨hmem, by simpa using hcounts⟩)
        rw [hdir]
        exact ih hrest hlastRest h

end Rooted
end InterfaceSchema.FileTree
