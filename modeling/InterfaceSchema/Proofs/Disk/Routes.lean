import InterfaceSchema.Proofs.Disk.Sources

/-!
# The places on the way of a path

A path enters one place after another. It leads to a directory if directories
stand at all of these places. What is entered lies above the place of the path,
unless it is left again by two dots; so a path is followed alike in two trees
that have the same nodes above its place and where it steps out.
-/

namespace InterfaceSchema

/-- The places that names enter, one after another. -/
def Place.route (here : Place) : List Text → List Place
  | [] => []
  | name :: rest =>
    if name = "." then Place.route here rest
    else if name = ".." then Place.route here.dropLast rest
    else (here ++ [name]) :: Place.route (here ++ [name]) rest

/-- The places that names step out of by two dots. -/
def Place.left (here : Place) : List Text → List Place
  | [] => []
  | name :: rest =>
    if name = "." then Place.left here rest
    else if name = ".." then here :: Place.left here.dropLast rest
    else Place.left (here ++ [name]) rest

/-- The place that a path starts from. -/
def Path.start (current : Place) (path : Path) : Place := if path.isAbsolute then [] else current

/-- The places that a path enters, one after another. -/
def Path.route (current : Place) (path : Path) : List Place :=
  Place.route (path.start current) (FileTree.names path)

/-- The places that a path steps out of by two dots. -/
def Path.left (current : Place) (path : Path) : List Place :=
  Place.left (path.start current) (FileTree.names path)

section Places

variable {here place : Place} {list : List Text}

/-- Names behind names enter further places. -/
theorem Place.route_append (here : Place) (first second : List Text) :
    Place.route here (first ++ second) =
      Place.route here first ++ Place.route (Place.follow here first) second := by
  induction first generalizing here with
  | nil => rfl
  | cons name rest ih =>
    rw [List.cons_append, Place.route, Place.route, Place.follow]
    split
    · exact ih here
    · split
      · exact ih here.dropLast
      · rw [ih (here ++ [name])]
        rfl

/-- Single dots enter nothing. -/
theorem Place.route_filter (here : Place) (names : List Text) :
    Place.route here (names.filter fun name => name ≠ ".") = Place.route here names := by
  induction names generalizing here with
  | nil => rfl
  | cons name rest ih =>
    rw [List.filter_cons]
    by_cases hdot : name = "."
    · rw [if_neg (by simpa using hdot), ih, Place.route, if_pos hdot]
    · rw [if_pos (by simpa using hdot), Place.route, Place.route, if_neg hdot, if_neg hdot, ih, ih]

/-- Names of files and directories enter the places below. -/
theorem Place.mem_route_names (hlist : ∀ name ∈ list, IsName name) :
    place ∈ Place.route here list ↔ ∃ below, below ≠ [] ∧ below <+: list ∧ place = here ++ below := by
  induction list generalizing here with
  | nil => simp [Place.route]
  | cons name rest ih =>
    have hname := hlist name List.mem_cons_self
    rw [Place.route, if_neg hname.ne_here, if_neg hname.ne_up, List.mem_cons,
      ih fun other hother => hlist other (List.mem_cons_of_mem _ hother)]
    constructor
    · rintro (rfl | ⟨below, -, hbelow, rfl⟩)
      · exact ⟨[name], by simp, by simp, rfl⟩
      · exact ⟨name :: below, by simp, List.cons_prefix_cons.2 ⟨rfl, hbelow⟩, by simp⟩
    · rintro ⟨below, hne, hbelow, rfl⟩
      obtain ⟨first, more, rfl⟩ := List.exists_cons_of_ne_nil hne
      obtain ⟨rfl, hmore⟩ := List.cons_prefix_cons.1 hbelow
      by_cases hnil : more = []
      · exact .inl (by rw [hnil])
      · exact .inr ⟨more, hnil, hmore, by simp⟩

/-- What lies above a place, and is not this place, lies above its last
name. -/
theorem Place.prefix_dropLast (h : place <+: here) (hne : place ≠ here) : place <+: here.dropLast := by
  obtain ⟨below, rfl⟩ := h
  have hbelow : below ≠ [] := by
    rintro rfl
    exact hne (by simp)
  rw [List.dropLast_append_of_ne_nil hbelow]
  exact List.prefix_append _ _

/-- Of two places that do not contain one another, neither contains what lies
below the other one. -/
theorem Place.not_prefix_append (h : ¬place <+: here) (h' : ¬here <+: place) (below : List Text) :
    ¬place <+: here ++ below := fun hprefix =>
  (List.prefix_or_prefix_of_prefix hprefix (List.prefix_append _ below)).elim h h'

/-- What lies above the start lies above the end as well, or is left. -/
theorem Place.prefix_follow_or_left (names : List Text) (h : place <+: here) :
    place <+: Place.follow here names ∨ place ∈ Place.left here names := by
  induction names generalizing here with
  | nil => exact .inl h
  | cons name rest ih =>
    rw [Place.follow, Place.left]
    split
    · exact ih h
    · split
      · rcases eq_or_ne place here with rfl | hne
        · exact .inr List.mem_cons_self
        · exact (ih (Place.prefix_dropLast h hne)).imp_right (List.mem_cons_of_mem _)
      · exact ih (h.trans (List.prefix_append _ _))

/-- What is entered lies above the end, or is left again. -/
theorem Place.prefix_or_left_of_mem_route {names : List Text} (h : place ∈ Place.route here names) :
    place <+: Place.follow here names ∨ place ∈ Place.left here names := by
  induction names generalizing here with
  | nil => cases h
  | cons name rest ih =>
    rw [Place.route] at h
    rw [Place.follow, Place.left]
    split at h
    · next hdot =>
      rw [if_pos hdot, if_pos hdot]
      exact ih h
    · next hdot =>
      rw [if_neg hdot, if_neg hdot]
      split at h
      · next hup =>
        rw [if_pos hup, if_pos hup]
        exact (ih h).imp_right (List.mem_cons_of_mem _)
      · next hup =>
        rw [if_neg hup, if_neg hup]
        rcases List.mem_cons.1 h with rfl | h
        · exact Place.prefix_follow_or_left rest List.prefix_rfl
        · exact ih h

/-- Without double dots, nothing is left. -/
theorem Place.left_of_up_notMem {names : List Text} (hup : "..".toList ∉ names) (here : Place) :
    Place.left here names = [] := by
  induction names generalizing here with
  | nil => rfl
  | cons name rest ih =>
    obtain ⟨hname, hrest⟩ := not_or.1 (mt List.mem_cons.2 hup)
    rw [Place.left, if_neg (Ne.symm hname)]
    split
    · exact ih hrest here
    · exact ih hrest (here ++ [name])

/-- Without double dots, everything that is entered lies below the start. -/
theorem Place.prefix_of_mem_route {names : List Text} (hup : "..".toList ∉ names)
    (h : place ∈ Place.route here names) : here <+: place := by
  induction names generalizing here with
  | nil => cases h
  | cons name rest ih =>
    obtain ⟨hname, hrest⟩ := not_or.1 (mt List.mem_cons.2 hup)
    rw [Place.route, if_neg (Ne.symm hname)] at h
    split at h
    · exact ih hrest h
    · rcases List.mem_cons.1 h with rfl | h
      · exact List.prefix_append _ _
      · exact (List.prefix_append _ _).trans (ih hrest h)

/-- What lies above the end lies above the start as well, or is entered. -/
theorem Place.prefix_or_mem_route {names : List Text} (h : place <+: Place.follow here names) :
    place <+: here ∨ place ∈ Place.route here names := by
  induction names generalizing here with
  | nil => exact .inl h
  | cons name rest ih =>
    rw [Place.follow] at h
    rw [Place.route]
    split at h
    · next hdot => rw [if_pos hdot]; exact ih h
    · next hdot =>
      rw [if_neg hdot]
      split at h
      · next hup =>
        rw [if_pos hup]
        exact (ih h).imp_left fun hdrop => hdrop.trans (List.dropLast_prefix here)
      · next hup =>
        rw [if_neg hup]
        rcases ih h with hprefix | hroute
        · by_cases heq : place = here ++ [name]
          · exact .inr (heq ▸ List.mem_cons_self)
          · have hdrop := Place.prefix_dropLast hprefix heq
            rw [List.dropLast_concat] at hdrop
            exact .inl hdrop
        · exact .inr (List.mem_cons_of_mem _ hroute)

/-- What a path enters lies above its place, or is left again. -/
theorem Path.prefix_or_left_of_mem_route {current : Place} {path : Path}
    (h : place ∈ path.route current) :
    place <+: path.place current ∨ place ∈ path.left current :=
  Place.prefix_or_left_of_mem_route h

end Places

namespace FileTree

section Walk

variable {tree later : FileTree} {here place : Place} {first second list : List Text} {path : Path}
  {content : Content}

/-- Names lead to a directory if directories stand wherever they lead. -/
theorem walk_directory_iff : tree.walk here list = .ok (.taken place .directory) ↔
    place = Place.follow here list ∧
      ∀ entered ∈ Place.route here list, tree.node? entered = some .directory := by
  induction list generalizing here with
  | nil => simp [walk, Place.follow, Place.route, eq_comm]
  | cons name rest ih =>
    rw [walk, Place.follow, Place.route]
    split
    · exact ih
    · split
      · exact ih
      · rcases hnode : tree.node? (here ++ [name]) with _ | _ | held
        · simp only [List.mem_cons, forall_eq_or_imp, hnode, reduceCtorEq, false_and, and_false,
            iff_false]
          split <;> simp
        · simp only [List.mem_cons, forall_eq_or_imp, hnode, true_and]
          exact ih
        · simp only [List.mem_cons, forall_eq_or_imp, hnode, Option.some.injEq, reduceCtorEq,
            false_and, and_false, iff_false]
          split <;> simp

/-- Names behind names that lead to a directory lead on from there. -/
theorem walk_append_of_directory (h : tree.walk here first = .ok (.taken place .directory)) :
    tree.walk here (first ++ second) = tree.walk place second := by
  induction first generalizing here with
  | nil =>
    obtain ⟨rfl, -⟩ := walk_directory_iff.1 h
    rfl
  | cons name rest ih =>
    rw [List.cons_append, walk]
    rw [walk] at h
    split at h
    · next hdot => rw [if_pos hdot]; exact ih h
    · next hdot =>
      rw [if_neg hdot]
      split at h
      · next hup => rw [if_pos hup]; exact ih h
      · next hup =>
        rw [if_neg hup]
        split at h
        · exact ih h
        · split at h <;> cases h
        · split at h <;> cases h

/-- A name leads from a directory to what stands below it by this name. -/
theorem walk_name {name : Text} (hname : IsName name) (here : Place) :
    tree.walk here [name] = .ok (match tree.node? (here ++ [name]) with
      | some node => .taken (here ++ [name]) node
      | none => .vacant (here ++ [name])) := by
  rw [walk, if_neg hname.ne_here, if_neg hname.ne_up]
  rcases tree.node? (here ++ [name]) with _ | _ | held <;> rfl

/-- Without files on the way, names lead to a directory, to a missing entry of
one, or past something that is missing. -/
theorem walk_of_no_file (h : ∀ entered ∈ Place.route here list, ∀ held,
      tree.node? entered ≠ some (.file held)) :
    (∃ place, tree.walk here list = .ok (.taken place .directory)) ∨
      (∃ place ∈ Place.route here list, tree.walk here list = .ok (.vacant place) ∧
        ∀ entered ∈ Place.route here list, entered ≠ place →
          tree.node? entered = some .directory) ∨
      tree.walk here list = .error .notFound ∧
        ∃ entered ∈ Place.route here list.dropLast, tree.node? entered = none := by
  induction list generalizing here with
  | nil => exact .inl ⟨here, rfl⟩
  | cons name rest ih =>
    by_cases hlast : rest = []
    · subst hlast
      rw [walk]
      rw [Place.route] at h ⊢
      split
      · exact .inl ⟨here, rfl⟩
      · next hdot =>
        rw [if_neg hdot] at h
        split
        · exact .inl ⟨here.dropLast, rfl⟩
        · next hup =>
          rw [if_neg hup] at h
          rcases hnode : tree.node? (here ++ [name]) with _ | _ | held
          · refine .inr (.inl ⟨here ++ [name], List.mem_cons_self, rfl, fun entered hentered hne => ?_⟩)
            exact absurd (List.mem_singleton.1 hentered) hne
          · exact .inl ⟨here ++ [name], rfl⟩
          · exact absurd hnode (h _ List.mem_cons_self held)
    · rw [walk, List.dropLast_cons_of_ne_nil hlast]
      rw [Place.route] at h ⊢
      rw [Place.route]
      split
      · next hdot =>
        rw [if_pos hdot] at h
        exact ih h
      · next hdot =>
        rw [if_neg hdot] at h
        split
        · next hup =>
          rw [if_pos hup] at h
          exact ih h
        · next hup =>
          rw [if_neg hup] at h
          rcases hnode : tree.node? (here ++ [name]) with _ | _ | held
          · exact .inr (.inr ⟨if_neg (by simpa using hlast), _, List.mem_cons_self, hnode⟩)
          · rcases ih fun entered hentered => h entered (List.mem_cons_of_mem _ hentered) with
              hdir | ⟨place, hplace, hwalk, hdirs⟩ | ⟨hwalk, entered, hentered, hnone⟩
            · exact .inl hdir
            · refine .inr (.inl ⟨place, List.mem_cons_of_mem _ hplace, hwalk, ?_⟩)
              intro entered hentered hne
              rcases List.mem_cons.1 hentered with rfl | hentered
              · exact hnode
              · exact hdirs entered hentered hne
            · exact .inr (.inr ⟨hwalk, entered, List.mem_cons_of_mem _ hentered, hnone⟩)
          · exact absurd hnode (h _ List.mem_cons_self held)

/-- A missing entry, and a file, lies where names enter last. -/
theorem mem_route_of_walk {spot : Spot} (h : tree.walk here list = .ok spot)
    (hopen : ∀ place, spot ≠ .taken place .directory) : spot.place ∈ Place.route here list := by
  induction list generalizing here with
  | nil =>
    cases h
    exact absurd rfl (hopen here)
  | cons name rest ih =>
    rw [walk] at h
    rw [Place.route]
    split at h
    · next hdot => rw [if_pos hdot]; exact ih h
    · next hdot =>
      rw [if_neg hdot]
      split at h
      · next hup => rw [if_pos hup]; exact ih h
      · next hup =>
        rw [if_neg hup]
        split at h
        · exact List.mem_cons_of_mem _ (ih h)
        · split at h <;> cases h
          exact List.mem_cons_self
        · split at h <;> cases h
          exact List.mem_cons_self

/-- Finding a directory is following a path to it. -/
theorem find_directory_iff : tree.find path = .ok (place, .directory) ↔
    path.text ≠ [] ∧ tree.walk (tree.origin path) (names path) = .ok (.taken place .directory) := by
  rw [find, spot]
  by_cases hempty : path.text.isEmpty
  · rw [if_pos hempty]
    simpa [bind, Except.bind] using fun hne => absurd (List.isEmpty_iff.1 hempty) hne
  · rw [if_neg hempty]
    have hne : path.text ≠ [] := by simpa using hempty
    rcases tree.walk (tree.origin path) (names path) with error | ⟨found, _ | held⟩ | found
    · simp [bind, Except.bind]
    · simp [bind, Except.bind, hne]
    · cases wantsDirectory path <;> simp [bind, Except.bind]
    · simp [bind, Except.bind]

/-- A directory is found if directories stand wherever its path leads. -/
theorem find_directory_route : tree.find path = .ok (place, .directory) ↔
    path.text ≠ [] ∧ place = path.place tree.current ∧
      ∀ entered ∈ path.route tree.current, tree.node? entered = some .directory := by
  rw [find_directory_iff, walk_directory_iff]
  rfl

/-- The place of a path that ends with a name. -/
theorem place_of_names {name : Text} {current : Place} (hnames : names path = list ++ [name])
    (hname : IsName name) :
    path.place current = Place.follow (path.start current) list ++ [name] := by
  rw [Path.place, hnames, Place.follow_append, Place.follow_names (by simpa using hname)]
  rfl

/-- The place of a path that ends with a name is entered last. -/
theorem place_mem_route {name : Text} (hnames : names path = list ++ [name])
    (hname : IsName name)
    (current : Place) : path.place current ∈ path.route current := by
  have hlast : ∀ other ∈ [name], IsName other := by simpa using hname
  rw [place_of_names hnames hname, Path.route, hnames, Place.route_append, List.mem_append,
    Place.mem_route_names hlast]
  exact .inr ⟨[name], by simp, List.prefix_rfl, rfl⟩

/-- A file is found behind the directories on the way to it. -/
theorem find_file_route {name : Text} (hnames : names path = list ++ [name]) (hname : IsName name)
    (hwants : wantsDirectory path = false) : tree.find path = .ok (place, .file content) ↔
      place = path.place tree.current ∧ tree.node? place = some (.file content) ∧
        ∀ entered ∈ Place.route (path.start tree.current) list,
          tree.node? entered = some .directory := by
  have hempty : ¬path.text.isEmpty := by
    intro hnil
    obtain ⟨text⟩ := path
    obtain rfl := List.isEmpty_iff.1 hnil
    cases list <;> cases hnames
  have hspot : tree.spot path = tree.walk (path.start tree.current) (list ++ [name]) := by
    rw [spot, if_neg hempty, hnames]
    rfl
  rw [find_file_iff, hspot, place_of_names hnames hname]
  simp only [hwants, and_true]
  constructor
  · intro hwalk
    obtain ⟨middle, hmiddle⟩ := walk_append (by simp) hwalk
    obtain ⟨rfl, hroute⟩ := walk_directory_iff.1 hmiddle
    rw [walk_append_of_directory hmiddle, walk_name hname] at hwalk
    split at hwalk
    · next node hnode =>
      cases hwalk
      exact ⟨rfl, hnode, hroute⟩
    · cases hwalk
  · rintro ⟨rfl, hnode, hroute⟩
    rw [walk_append_of_directory (walk_directory_iff.2 ⟨rfl, hroute⟩), walk_name hname, hnode]

/-- What is found by a path that ends with a name stands there. -/
theorem node?_of_find {name : Text} {node : Node} (hnames : names path = list ++ [name])
    (hname : IsName name) (h : tree.find path = .ok (place, node)) :
    tree.node? place = some node := by
  cases node with
  | file held => exact (find_file h).2
  | directory =>
    obtain ⟨-, rfl, hroute⟩ := find_directory_route.1 h
    exact hroute _ (place_mem_route hnames hname tree.current)

/-- A directory that is found is found in a tree that has grown. -/
theorem Grows.find_directory {touched : Place → Prop} (h : Grows touched tree later)
    (hfind : tree.find path = .ok (place, .directory)) :
    later.find path = .ok (place, .directory) := by
  obtain ⟨hne, hplace, hroute⟩ := find_directory_route.1 hfind
  rw [find_directory_route, h.current]
  exact ⟨hne, hplace, fun entered hentered => h.directory entered (hroute entered hentered)⟩

end Walk

end FileTree

end InterfaceSchema
