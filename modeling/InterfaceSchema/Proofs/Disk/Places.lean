import InterfaceSchema.Disk.FileTree

/-!
# Where paths lead

A path is followed name by name, and each name before the last has to be that
of a directory. In a tree without links the place that is reached depends on
the spelling alone: single dots do not count, and two dots undo the name before
them. So a path that leads anywhere leads to its place. Joining paths joins
their names.
-/

namespace InterfaceSchema

/-- Where names lead from a place, if they lead anywhere. -/
def Place.follow (here : Place) : List Text → Place
  | [] => here
  | name :: rest =>
    if name = "." then Place.follow here rest
    else if name = ".." then Place.follow here.dropLast rest
    else Place.follow (here ++ [name]) rest

/-- Where a path leads from the current directory, if it leads anywhere. -/
def Path.place (current : Place) (path : Path) : Place :=
  Place.follow (if path.isAbsolute then [] else current) (FileTree.names path)

/-- The place that is taken or vacant. -/
def Spot.place : Spot → Place
  | taken place _ => place
  | vacant place => place

/-- A name of a file or directory, which leads from a directory to something
in it. -/
structure IsName (name : Text) : Prop where
  ne_nil : name ≠ []
  slash : '/' ∉ name
  ne_here : name ≠ "."
  ne_up : name ≠ ".."

/-- Names can be told from other texts. -/
instance (name : Text) : Decidable (IsName name) :=
  decidable_of_iff (name ≠ [] ∧ '/' ∉ name ∧ name ≠ "." ∧ name ≠ "..")
    ⟨fun ⟨hne, hslash, hdot, hup⟩ => ⟨hne, hslash, hdot, hup⟩,
      fun ⟨hne, hslash, hdot, hup⟩ => ⟨hne, hslash, hdot, hup⟩⟩

section Follow

variable {here : Place} {first second : List Text}

/-- Names behind names lead on from where those led. -/
theorem Place.follow_append (here : Place) (first second : List Text) :
    Place.follow here (first ++ second) = Place.follow (Place.follow here first) second := by
  induction first generalizing here with
  | nil => rfl
  | cons name rest ih =>
    rw [List.cons_append, Place.follow, Place.follow]
    split
    · exact ih here
    · split
      · exact ih here.dropLast
      · exact ih (here ++ [name])

/-- Names of files and directories lead down. -/
theorem Place.follow_names {names : List Text} (h : ∀ name ∈ names, IsName name) (here : Place) :
    Place.follow here names = here ++ names := by
  induction names generalizing here with
  | nil => simp [Place.follow]
  | cons name rest ih =>
    have hname := h name List.mem_cons_self
    rw [Place.follow, if_neg hname.ne_here, if_neg hname.ne_up,
      ih fun other hother => h other (List.mem_cons_of_mem _ hother)]
    simp

/-- Single dots do not count. -/
theorem Place.follow_filter (here : Place) (names : List Text) :
    Place.follow here (names.filter fun name => name ≠ ".") = Place.follow here names := by
  induction names generalizing here with
  | nil => rfl
  | cons name rest ih =>
    rw [List.filter_cons]
    by_cases hdot : name = "."
    · rw [if_neg (by simpa using hdot), ih, Place.follow, if_pos hdot]
    · rw [if_pos (by simpa using hdot), Place.follow, Place.follow, if_neg hdot, if_neg hdot, ih,
        ih]

/-- Without double dots, names lead down. -/
theorem Place.follow_of_up_notMem {names : List Text} (hup : "..".toList ∉ names) (here : Place) :
    Place.follow here names = here ++ names.filter fun name : Text => name ≠ "." := by
  induction names generalizing here with
  | nil => simp [Place.follow]
  | cons name rest ih =>
    obtain ⟨hname, hrest⟩ := not_or.1 (mt List.mem_cons.2 hup)
    rw [Place.follow, if_neg (Ne.symm hname), List.filter_cons]
    by_cases hdot : name = "."
    · rw [if_pos hdot, if_neg (by simpa using hdot), ih hrest here]
    · rw [if_neg hdot, if_pos (by simpa using hdot), ih hrest, List.append_assoc]
      rfl

/-- Names without slashes that lead somewhere lead to a place made up of
names. -/
theorem Place.isName_follow {names : List Text} (hhere : ∀ name ∈ here, IsName name)
    (hnames : ∀ name ∈ names, name ≠ [] ∧ '/' ∉ name) :
    ∀ name ∈ Place.follow here names, IsName name := by
  induction names generalizing here with
  | nil => exact hhere
  | cons name rest ih =>
    have hrest : ∀ other ∈ rest, other ≠ [] ∧ '/' ∉ other := fun other hother =>
      hnames other (List.mem_cons_of_mem _ hother)
    rw [Place.follow]
    split
    · exact ih hhere hrest
    · next hdot =>
      split
      · exact ih (fun other hother => hhere other (List.dropLast_subset _ hother)) hrest
      · next hup =>
        refine ih (fun other hother => ?_) hrest
        rcases List.mem_append.1 hother with hother | hother
        · exact hhere other hother
        · obtain rfl := List.mem_singleton.1 hother
          obtain ⟨hne, hslash⟩ := hnames other List.mem_cons_self
          exact ⟨hne, hslash, hdot, hup⟩

end Follow

namespace FileTree

section Names

/-- There is a piece before and between any slashes. -/
theorem splitSlashes_ne_nil (text : Text) : Path.splitSlashes text ≠ [] := by
  cases text with
  | nil => simp [Path.splitSlashes]
  | cons c rest =>
    rw [Path.splitSlashes]
    split
    · simp
    · split <;> simp

/-- The pieces before and behind a slash. -/
theorem splitSlashes_append (before after : Text) :
    Path.splitSlashes (before ++ '/' :: after) =
      Path.splitSlashes before ++ Path.splitSlashes after := by
  induction before with
  | nil => simp [Path.splitSlashes]
  | cons c rest ih =>
    rw [List.cons_append, Path.splitSlashes, Path.splitSlashes, ih]
    split
    · rfl
    · cases hpieces : Path.splitSlashes rest with
      | nil => exact absurd hpieces (splitSlashes_ne_nil rest)
      | cons piece more => rfl

/-- A text without slashes is one piece. -/
theorem splitSlashes_eq_self {text : Text} (h : '/' ∉ text) : Path.splitSlashes text = [text] := by
  induction text with
  | nil => rfl
  | cons c rest ih =>
    obtain ⟨hc, hrest⟩ := not_or.1 (mt List.mem_cons.2 h)
    rw [Path.splitSlashes, if_neg (Ne.symm hc), ih hrest]

/-- Pieces hold no slashes. -/
theorem slash_notMem_splitSlashes (text : Text) :
    ∀ piece ∈ Path.splitSlashes text, '/' ∉ piece := by
  induction text with
  | nil => simp [Path.splitSlashes]
  | cons c rest ih =>
    rw [Path.splitSlashes]
    split
    · intro piece hpiece
      rcases List.mem_cons.1 hpiece with rfl | hpiece
      · simp
      · exact ih piece hpiece
    · next hc =>
      cases hpieces : Path.splitSlashes rest with
      | nil => exact absurd hpieces (splitSlashes_ne_nil rest)
      | cons first more =>
        rw [hpieces] at ih
        intro piece hpiece
        rcases List.mem_cons.1 hpiece with rfl | hpiece
        · have hfirst := ih first List.mem_cons_self
          simpa [hfirst] using Ne.symm hc
        · exact ih piece (List.mem_cons_of_mem _ hpiece)

/-- The names of a path are not empty and hold no slashes. -/
theorem names_proper (path : Path) : ∀ name ∈ names path, name ≠ [] ∧ '/' ∉ name := by
  intro name hname
  obtain ⟨hpiece, hne⟩ := List.mem_filter.1 hname
  exact ⟨by simpa using hne, slash_notMem_splitSlashes path.text name hpiece⟩

/-- The names before and behind a slash. -/
theorem names_append (before after : Text) :
    names ⟨before ++ '/' :: after⟩ = names ⟨before⟩ ++ names ⟨after⟩ := by
  rw [names, splitSlashes_append, List.filter_append]
  rfl

/-- The names of joined paths. -/
theorem names_join (base : Path) {path : Path} (h : path.isAbsolute = false) :
    names (base.join path) = names base ++ names path := by
  obtain ⟨text⟩ := base
  rw [Path.join, if_neg (by simpa using h)]
  split
  · next hend =>
    rcases hend with hempty | hslash
    · obtain rfl : text = [] := by simpa using hempty
      rfl
    · obtain ⟨before, rfl⟩ := List.getLast?_eq_some_iff.1 hslash
      have hbefore := names_append before []
      have hnone : names ⟨[]⟩ = [] := rfl
      rw [hnone, List.append_nil] at hbefore
      dsimp only
      rw [hbefore, List.append_assoc, List.singleton_append, names_append]
  · exact names_append text path.text

/-- Joined paths start where the first one does. -/
theorem isAbsolute_join (base : Path) {path : Path} (h : path.isAbsolute = false) :
    (base.join path).isAbsolute = base.isAbsolute := by
  obtain ⟨text⟩ := base
  rw [Path.join, if_neg (by simpa using h)]
  cases text with
  | nil => simpa [Path.isAbsolute] using h
  | cons c rest => split <;> simp [Path.isAbsolute]

/-- A path that is a name has this name only. -/
theorem names_name {name : Text} (hne : name ≠ []) (hslash : '/' ∉ name) :
    names ⟨name⟩ = [name] := by
  rw [names, splitSlashes_eq_self hslash]
  simpa using hne

/-- A path that is a name does not start at the root. -/
theorem isAbsolute_name {name : Text} (hslash : '/' ∉ name) :
    Path.isAbsolute ⟨name⟩ = false := by
  cases name with
  | nil => rfl
  | cons c rest =>
    obtain ⟨hc, -⟩ := not_or.1 (mt List.mem_cons.2 hslash)
    simpa [Path.isAbsolute] using Ne.symm hc

/-- A slash stands behind a name that is not the last one. -/
theorem joinWith_names (name second : Text) (more : List Text) :
    Text.joinWith "/" (name :: second :: more) =
      name ++ '/' :: Text.joinWith "/" (second :: more) :=
  Text.joinWith_cons_cons "/" name second more

/-- Names with slashes between them are the names of the path. -/
theorem names_joinWith {list : List Text} (h : ∀ name ∈ list, name ≠ [] ∧ '/' ∉ name) :
    names ⟨Text.joinWith "/" list⟩ = list := by
  induction list with
  | nil => rfl
  | cons name rest ih =>
    obtain ⟨hne, hslash⟩ := h name List.mem_cons_self
    have hrest := ih fun other hother => h other (List.mem_cons_of_mem _ hother)
    cases rest with
    | nil => simpa using names_name hne hslash
    | cons second more =>
      rw [joinWith_names, names_append, names_name hne hslash, hrest, List.singleton_append]

/-- Names with slashes between them do not start at the root. -/
theorem isAbsolute_joinWith {list : List Text} (h : ∀ name ∈ list, name ≠ [] ∧ '/' ∉ name) :
    Path.isAbsolute ⟨Text.joinWith "/" list⟩ = false := by
  cases list with
  | nil => rfl
  | cons name rest =>
    obtain ⟨hne, hslash⟩ := h name List.mem_cons_self
    obtain ⟨c, more, rfl⟩ := List.exists_cons_of_ne_nil hne
    obtain ⟨hc, -⟩ := not_or.1 (mt List.mem_cons.2 hslash)
    cases rest with
    | nil => simpa [Path.isAbsolute] using Ne.symm hc
    | cons second others =>
      rw [joinWith_names]
      simpa [Path.isAbsolute] using Ne.symm hc

/-- Joined paths lead from the place of the first one along the names of the
second one. -/
theorem place_join (current : Place) (base : Path) {path : Path} (h : path.isAbsolute = false) :
    (base.join path).place current = Place.follow (base.place current) (names path) := by
  rw [Path.place, Path.place, isAbsolute_join base h, names_join base h, Place.follow_append]

/-- The place of something in a directory. -/
theorem place_join_name (current : Place) (base : Path) {name : Text} (h : IsName name) :
    (base.join ⟨name⟩).place current = base.place current ++ [name] := by
  rw [place_join current base (isAbsolute_name h.slash), names_name h.ne_nil h.slash,
    Place.follow_names (by simpa using h)]

/-- The place of something below a directory. -/
theorem place_join_names (current : Place) (base : Path) {list : List Text}
    (h : ∀ name ∈ list, IsName name) :
    (base.join ⟨Text.joinWith "/" list⟩).place current = base.place current ++ list := by
  have hproper : ∀ name ∈ list, name ≠ [] ∧ '/' ∉ name := fun name hname =>
    ⟨(h name hname).ne_nil, (h name hname).slash⟩
  rw [place_join current base (isAbsolute_joinWith hproper), names_joinWith hproper,
    Place.follow_names h]

end Names

section Walk

variable {tree : FileTree} {here place : Place} {path : Path} {spot : Spot}

/-- Names that lead anywhere lead to their place. -/
theorem walk_place {list : List Text} (h : tree.walk here list = .ok spot) :
    spot.place = Place.follow here list := by
  induction list generalizing here with
  | nil =>
    cases h
    rfl
  | cons name rest ih =>
    rw [walk] at h
    rw [Place.follow]
    split at h
    · next hdot => rw [if_pos hdot]; exact ih h
    · next hdot =>
      rw [if_neg hdot]
      split at h
      · next hup => rw [if_pos hup]; exact ih h
      · next hup =>
        rw [if_neg hup]
        split at h
        · exact ih h
        · split at h
          · next hlast =>
            cases h
            obtain rfl := List.isEmpty_iff.1 hlast
            rfl
          · cases h
        · split at h
          · next hlast =>
            cases h
            obtain rfl := List.isEmpty_iff.1 hlast
            rfl
          · cases h

/-- A path that leads anywhere leads to its place. -/
theorem spot_place (h : tree.spot path = .ok spot) : spot.place = path.place tree.current := by
  rw [FileTree.spot] at h
  split at h
  · cases h
  · exact walk_place h

end Walk

end FileTree

end InterfaceSchema
