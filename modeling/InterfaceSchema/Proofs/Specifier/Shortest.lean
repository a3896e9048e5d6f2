import InterfaceSchema.Proofs.Disk.Stems
import InterfaceSchema.Proofs.Specifier.Resolution

/-!
# Specifiers are shortest ways

A specifier goes up from a directory to what it has in common with the file, and
down from there. A file name without its extension can be one or two dots, and then
the last step goes down to no file; the specifier of any other file leads to it and
goes up no more often than it has to.
-/

namespace InterfaceSchema

open FileTree Disk

/-- A path without single or double dots among its components. -/
def Path.Dotless (path : Path) : Prop :=
  ∀ component ∈ path.components, component ≠ .here ∧ component ≠ .up

/-- Whether there are dots can be decided. -/
instance (path : Path) : Decidable path.Dotless :=
  inferInstanceAs (Decidable (∀ component ∈ path.components, _))

namespace Specifier

/-- Where a step leads to. A step up takes a name back; it stays at the root and is
kept where no name is left. -/
def step (here : List Component) : Component → List Component
  | .root => [.root]
  | .here => here
  | .up =>
    match here.getLast? with
    | some .root => here
    | some (.name _) => here.dropLast
    | _ => here ++ [.up]
  | .name name => here ++ [.name name]

/-- Where steps lead to, one after another. -/
def walk (here steps : List Component) : List Component := steps.foldl step here

/-- The steps that the segments of a specifier stand for. -/
def segments (specifier : Text) : List Component :=
  (Path.splitSlashes specifier).filterMap Path.component?

/-- Where a specifier leads to from a directory. -/
def follow (here : List Component) (specifier : Text) : List Component :=
  walk here (segments specifier)

/-- How often a specifier goes up. -/
def ups (specifier : Text) : Nat := (Path.splitSlashes specifier).count "..".toList

/-- The longest start that two lists of components have in common. -/
structure LongestCommon (common start goal : List Component) : Prop where
  isStart : common <+: start
  isGoal : common <+: goal
  longest : ∀ other, other <+: start → other <+: goal → other.length ≤ common.length

/-- What may stand behind the root in the components of a path. -/
structure BehindRoot (list : List Component) : Prop where
  root : .root ∉ list
  isName : ∀ name, .name name ∈ list → IsName name

section Walking

variable {out down steps : List Component}

/-- Steps behind steps lead on from where those led. -/
theorem walk_append (here first second : List Component) :
    walk here (first ++ second) = walk (walk here first) second :=
  List.foldl_append

/-- Names are followed down. -/
theorem walk_names (h : ∀ component ∈ down, ∃ name, component = .name name)
    (here : List Component) : walk here down = here ++ down := by
  induction down generalizing here with
  | nil => exact (List.append_nil here).symm
  | cons component rest ih =>
    obtain ⟨name, rfl⟩ := h component List.mem_cons_self
    have hrest := ih (fun other hother => h other (List.mem_cons_of_mem _ hother))
      (here ++ [.name name])
    rw [List.append_assoc] at hrest
    exact hrest

/-- As many steps up as there are names lead back. -/
theorem walk_ups (h : ∀ component ∈ out, ∃ name, component = .name name)
    (here : List Component) : walk (here ++ out) (List.replicate out.length .up) = here := by
  induction out using List.reverseRecOn with
  | nil => exact List.append_nil here
  | append_singleton rest component ih =>
    obtain ⟨name, rfl⟩ := h component (by simp)
    have hback : step (here ++ (rest ++ [.name name])) .up = here ++ rest := by
      rw [← List.append_assoc]
      simp [step]
    have hlength : (rest ++ [Component.name name]).length = rest.length + 1 := by simp
    rw [hlength, List.replicate_succ]
    calc walk (here ++ (rest ++ [.name name])) (.up :: List.replicate rest.length .up)
        = walk (here ++ rest) (List.replicate rest.length .up) := congrArg (walk · _) hback
      _ = here := ih fun other hother => h other (List.mem_append_left _ hother)

/-- A step leads at most one component up. -/
theorem dropLast_prefix_step (here : List Component) {component : Component}
    (h : component ≠ .root) :
    here.dropLast <+: step here component ∧
      (component ≠ .up → here <+: step here component) := by
  have hdrop := List.dropLast_prefix here
  cases component with
  | root => exact absurd rfl h
  | here => exact ⟨hdrop, fun _ => List.prefix_rfl⟩
  | name name =>
    exact ⟨hdrop.trans (List.prefix_append here _), fun _ => List.prefix_append here _⟩
  | up =>
    refine ⟨?_, fun hup => absurd rfl hup⟩
    rw [step]
    split
    · exact hdrop
    · exact List.prefix_rfl
    · exact hdrop.trans (List.prefix_append here _)

/-- Steps leave all components but as many as they go up. -/
theorem take_prefix_walk (hroot : .root ∉ steps) (here : List Component) :
    here.take (here.length - steps.count .up) <+: walk here steps := by
  induction steps generalizing here with
  | nil => exact List.take_prefix _ _
  | cons component rest ih =>
    obtain ⟨hcomponent, hrest⟩ := not_or.1 (mt List.mem_cons.2 hroot)
    obtain ⟨hone, hnone⟩ := dropLast_prefix_step here (Ne.symm hcomponent)
    refine List.IsPrefix.trans ?_ (ih hrest (step here component))
    have htake (list : List Component) (count : Nat) : list.take count <+: list :=
      List.take_prefix count list
    by_cases hup : component = .up
    · subst hup
      have hlength := hone.length_le
      have hdrop : here.take (here.length - (.up :: rest).count .up) <+: here.dropLast := by
        rw [List.dropLast_eq_take, List.count_cons_self]
        exact List.take_prefix_take_left (by omega)
      refine List.prefix_of_prefix_length_le (hdrop.trans hone) (htake _ _) ?_
      rw [List.count_cons_self, List.length_take, List.length_take]
      rw [List.length_dropLast] at hlength
      omega
    · have hlength := (hnone hup).length_le
      refine List.prefix_of_prefix_length_le ((htake _ _).trans (hnone hup)) (htake _ _) ?_
      rw [List.count_cons_of_ne hup, List.length_take, List.length_take]
      omega

end Walking

section Segments

variable {steps : List Component}

/-- What a path has behind the root. -/
theorem exists_behindRoot (path : Path) : ∃ rest, BehindRoot rest ∧
    path.components = (if path.isAbsolute then [.root] else []) ++ rest := by
  have hnames : BehindRoot ((names path).filterMap Path.component?) := by
    refine ⟨fun hroot => ?_, fun name hname => ?_⟩
    · obtain ⟨-, hplain⟩ := filterMap_component? (names path) fun name hname =>
        (names_proper path name hname).1
      exact (hplain _ hroot).1 rfl
    · obtain ⟨piece, hpiece, hcomponent⟩ := List.mem_filterMap.1 hname
      obtain ⟨hne, hslash⟩ := names_proper path piece hpiece
      rw [Path.component?] at hcomponent
      split at hcomponent
      · cases hcomponent
      split at hcomponent
      · cases hcomponent
      · next hdot hup =>
        cases hcomponent
        exact ⟨hne, hslash, (not_or.1 hdot).2, hup⟩
  rw [components_eq, isAbsolute_eq_split]
  cases path.split.1 with
  | none => exact ⟨_, hnames, rfl⟩
  | root => exact ⟨_, hnames, rfl⟩
  | here =>
    refine ⟨.here :: (names path).filterMap Path.component?, ⟨?_, fun name hname => ?_⟩, rfl⟩
    · simpa using hnames.root
    · exact hnames.isName name (by simpa using hname)

/-- The steps of a specifier that is put together from components. -/
theorem segments_joinWith (h : BehindRoot steps) :
    segments ("./" ++ Text.joinWith "/" (steps.map Component.text)) =
      steps.filter (· ≠ .here) := by
  have hfirst (rest : Text) : segments ('.' :: '/' :: rest) = segments rest := by
    have hsplit : Path.splitSlashes ('.' :: '/' :: rest) =
        Path.splitSlashes ['.'] ++ Path.splitSlashes rest := splitSlashes_append ['.'] rest
    rw [segments, hsplit, List.filterMap_append]
    rfl
  have hdot (rest : Text) : "./".toList ++ rest = '.' :: '/' :: rest := rfl
  rw [hdot, hfirst]
  by_cases hsteps : steps = []
  · rw [hsteps]
    rfl
  have hslash : ∀ piece ∈ steps.map Component.text, '/' ∉ piece := by
    intro piece hpiece
    obtain ⟨component, hcomponent, rfl⟩ := List.mem_map.1 hpiece
    cases component with
    | root => exact absurd hcomponent h.root
    | here => decide
    | up => decide
    | name name => exact (h.isName name hcomponent).slash
  rw [segments, splitSlashes_joinWith (by simpa using hsteps) hslash, List.filterMap_map,
    ← List.filterMap_eq_filter]
  refine List.filterMap_congr fun component hcomponent => ?_
  cases component with
  | root => exact absurd hcomponent h.root
  | here => rfl
  | up => rfl
  | name name => exact component?_name (h.isName name hcomponent)

/-- Single dots lead nowhere else. -/
theorem walk_filter_here (here steps : List Component) :
    walk here (steps.filter (· ≠ .here)) = walk here steps := by
  induction steps generalizing here with
  | nil => rfl
  | cons component rest ih =>
    by_cases hdot : component = .here
    · rw [hdot]
      exact ih here
    · rw [List.filter_cons_of_pos (by simpa using hdot)]
      exact ih (step here component)

/-- Specifiers do not go to the root. -/
theorem root_notMem_segments (specifier : Text) : .root ∉ segments specifier := by
  intro hroot
  obtain ⟨piece, -, hcomponent⟩ := List.mem_filterMap.1 hroot
  rw [Path.component?] at hcomponent
  split at hcomponent
  · cases hcomponent
  · split at hcomponent <;> cases hcomponent

/-- The steps up of a specifier are its segments of two dots. -/
theorem ups_eq_count (specifier : Text) : ups specifier = (segments specifier).count .up := by
  rw [segments, List.count_filterMap, ups, List.count]
  refine List.countP_congr fun piece _ => ?_
  rw [Path.component?]
  split
  · next hdot => rcases hdot with rfl | rfl <;> decide
  · split
    · next hup => simp [hup]
    · next hup => simpa using hup

end Segments

section Shortest

variable {base target : Path}

/-- Two lists go on behind the longest start that they have in common. -/
theorem exists_common (start goal : List Component) : ∃ common out down,
    start = common ++ out ∧ goal = common ++ down ∧ common.length = commonLength start goal := by
  induction start generalizing goal with
  | nil => exact ⟨[], [], goal, rfl, rfl, rfl⟩
  | cons first rest ih =>
    cases goal with
    | nil => exact ⟨[], first :: rest, [], rfl, rfl, rfl⟩
    | cons second more =>
      rw [commonLength]
      split
      · next heq =>
        obtain ⟨common, out, down, hrest, hmore, hlength⟩ := ih more
        exact ⟨first :: common, out, down, congrArg (first :: ·) hrest,
          heq ▸ congrArg (first :: ·) hmore, congrArg (· + 1) hlength⟩
      · exact ⟨[], first :: rest, second :: more, rfl, rfl, rfl⟩

/-- A common start of the right length is the longest one. -/
theorem longestCommon_of_length {common out down : List Component}
    (h : common.length = commonLength (common ++ out) (common ++ down)) :
    LongestCommon common (common ++ out) (common ++ down) := by
  refine ⟨List.prefix_append _ _, List.prefix_append _ _, ?_⟩
  rintro other ⟨first, hfirst⟩ ⟨second, hsecond⟩
  rw [h, ← hfirst, ← hsecond, commonLength_append]
  exact Nat.le_add_right _ _

/-- The ways from a directory and from nowhere, from what they have in common on. -/
structure Ways (base target : Path) (common out down : List Component) : Prop where
  start : base.components = common ++ out
  goal : target.withoutExtension.components = common ++ down
  longest : LongestCommon common base.components target.withoutExtension.components
  names : ∀ component ∈ out, ∃ name, component = .name name
  behindRoot : BehindRoot down
  reached : walk [] common = common
  specifier : ofPath base target = "./" ++ Text.joinWith "/"
    ((List.replicate out.length Component.up ++ down).map Component.text)

/-- Nothing but a name stands behind the root if there are no dots. -/
theorem eq_name_of_behindRoot {list : List Component} (hlist : BehindRoot list)
    (h : ∀ component ∈ list, component ≠ .here ∧ component ≠ .up) :
    ∀ component ∈ list, ∃ name, component = .name name := by
  intro component hcomponent
  cases component with
  | root => exact absurd hcomponent hlist.root
  | here => exact absurd rfl (h _ hcomponent).1
  | up => exact absurd rfl (h _ hcomponent).2
  | name name => exact ⟨name, rfl⟩

/-- There are such ways if both paths lead from the root or neither does. -/
theorem exists_ways (hbase : base.Dotless) (hkind : base.isAbsolute = target.isAbsolute) :
    ∃ common out down, Ways base target common out down := by
  obtain ⟨first, hfirst, hstart⟩ := exists_behindRoot base
  obtain ⟨second, hsecond, hgoal⟩ := exists_behindRoot target.withoutExtension
  rw [isAbsolute_withoutExtension, ← hkind] at hgoal
  obtain ⟨common, out, down, rfl, rfl, hlength⟩ := exists_common first second
  have hlead : walk [] (if base.isAbsolute then [.root] else []) =
      if base.isAbsolute then [.root] else [] := by
    cases base.isAbsolute <;> rfl
  generalize (if base.isAbsolute then [Component.root] else []) = lead at hstart hgoal hlead
  have hnames := eq_name_of_behindRoot hfirst fun component hcomponent =>
    hbase component (by rw [hstart]; exact List.mem_append_right _ hcomponent)
  rw [← List.append_assoc] at hstart hgoal
  have hcommon : (lead ++ common).length =
      commonLength (lead ++ common ++ out) (lead ++ common ++ down) := by
    rw [List.append_assoc, List.append_assoc, commonLength_append, ← hlength, List.length_append]
  refine ⟨lead ++ common, out, down, hstart, hgoal, ?_,
    fun component hcomponent => hnames component (List.mem_append_right _ hcomponent),
    ⟨fun hroot => hsecond.root (List.mem_append_right _ hroot),
      fun name hname => hsecond.isName name (List.mem_append_right _ hname)⟩, ?_, ?_⟩
  · rw [hstart, hgoal]
    exact longestCommon_of_length hcommon
  · rw [walk_append, hlead,
      walk_names fun component hcomponent => hnames component (List.mem_append_left _ hcomponent)]
  · have hups : (out.map fun _ => Component.up) = List.replicate out.length .up :=
      List.map_const' ..
    rw [ofPath, hstart, hgoal, ← hcommon, List.drop_left, List.drop_left, hups]

variable {common out down : List Component}

/-- The steps of the specifier. -/
theorem Ways.segments_eq (h : Ways base target common out down) :
    segments (ofPath base target) =
      (List.replicate out.length Component.up ++ down).filter (· ≠ .here) := by
  rw [h.specifier]
  refine segments_joinWith ⟨fun hroot => ?_, fun name hname => ?_⟩
  · rcases List.mem_append.1 hroot with hroot | hroot
    · cases List.eq_of_mem_replicate hroot
    · exact h.behindRoot.root hroot
  · rcases List.mem_append.1 hname with hname | hname
    · cases List.eq_of_mem_replicate hname
    · exact h.behindRoot.isName name hname

/-- The specifier leads where the path without the extension does. -/
theorem Ways.follow_eq (h : Ways base target common out down) :
    follow base.components (ofPath base target) =
      walk [] target.withoutExtension.components := by
  rw [follow, h.segments_eq, walk_filter_here, walk_append, h.start, walk_ups h.names, h.goal,
    walk_append, h.reached]

/-- The specifier goes out of what the directory has of its own. -/
theorem Ways.ups_eq (h : Ways base target common out down)
    (hgoal : target.withoutExtension.Dotless) : ups (ofPath base target) = out.length := by
  have hdown : Component.up ∉ down := fun hup =>
    (hgoal .up (by rw [h.goal]; exact List.mem_append_right _ hup)).2 rfl
  rw [ups_eq_count, h.segments_eq, List.count_filter (by decide), List.count_append,
    List.count_replicate_self, List.count_eq_zero_of_not_mem hdown, Nat.add_zero]

/-- The specifier leads to the file if its path has no dots. -/
theorem Ways.walk_eq (h : Ways base target common out down)
    (hgoal : target.withoutExtension.Dotless) :
    walk [] target.withoutExtension.components = target.withoutExtension.components := by
  have hdown := eq_name_of_behindRoot h.behindRoot fun component hcomponent =>
    hgoal component (by rw [h.goal]; exact List.mem_append_right _ hcomponent)
  rw [h.goal, walk_append, h.reached, walk_names hdown]

/-- Every specifier to the same file goes up at least that often. -/
theorem Ways.le_ups (h : Ways base target common out down) {other : Text}
    (hother : follow base.components other = target.withoutExtension.components) :
    out.length ≤ ups other := by
  have hleft := take_prefix_walk (root_notMem_segments other) base.components
  rw [follow] at hother
  rw [hother] at hleft
  have hlongest := h.longest.longest _ ⟨_, List.take_append_drop _ _⟩ hleft
  have hstart := congrArg List.length h.start
  rw [List.length_take] at hlongest
  rw [List.length_append] at hstart
  rw [ups_eq_count]
  omega

/-- The specifier of a file starts with a single dot and leads from the directory
where the path of the file leads without its extension. If that path has no dots,
it leads to exactly its components, and goes up no more often than any other
specifier that does: once for each component of the directory behind the longest
start that both have in common. -/
theorem ofPath_leads (hbase : base.Dotless) (hkind : base.isAbsolute = target.isAbsolute) :
    "./".toList <+: ofPath base target ∧
    follow base.components (ofPath base target) = walk [] target.withoutExtension.components ∧
    (target.withoutExtension.Dotless →
      follow base.components (ofPath base target) = target.withoutExtension.components ∧
      (∃ common, LongestCommon common base.components target.withoutExtension.components ∧
        ups (ofPath base target) + common.length = base.components.length) ∧
      ∀ other, follow base.components other = target.withoutExtension.components →
        ups (ofPath base target) ≤ ups other) := by
  obtain ⟨common, out, down, h⟩ := exists_ways hbase hkind
  refine ⟨?_, h.follow_eq, fun hgoal => ⟨h.follow_eq.trans (h.walk_eq hgoal),
    ⟨common, h.longest, ?_⟩, fun other hother => ?_⟩⟩
  · rw [h.specifier]
    exact List.prefix_append _ _
  · rw [h.ups_eq hgoal, h.start, List.length_append, Nat.add_comm]
  · rw [h.ups_eq hgoal]
    exact h.le_ups hother

/-- A file beside a directory with a dot in its name. -/
theorem ofPath_leads_beside :
    ofPath ⟨"/out/zod/user.d"⟩ ⟨"/out/types/user.d.ts"⟩ = "./../../types/user.d" ∧
    ups (ofPath ⟨"/out/zod/user.d"⟩ ⟨"/out/types/user.d.ts"⟩) = 2 ∧
    follow (Path.components ⟨"/out/zod/user.d"⟩) "./../../types/user.d" =
      Path.components ⟨"/out/types/user.d"⟩ := by
  obtain ⟨-, -, hleads⟩ := @ofPath_leads ⟨"/out/zod/user.d"⟩ ⟨"/out/types/user.d.ts"⟩
    (by decide) (by decide)
  obtain ⟨hfollow, -, -⟩ := hleads (by decide)
  have hspecifier : ofPath ⟨"/out/zod/user.d"⟩ ⟨"/out/types/user.d.ts"⟩ =
      "./../../types/user.d".toList := by decide
  exact ⟨hspecifier, by decide, hspecifier ▸ hfollow⟩

/-- A file name that is two dots without its extension leads to no file. -/
theorem ofPath_dots : ¬∀ base target : Path, base.Dotless → target.Dotless →
    base.isAbsolute = target.isAbsolute →
    follow base.components (ofPath base target) = target.withoutExtension.components ∧
      "./".toList <+: ofPath base target ∧
      ∃ common, LongestCommon common base.components target.withoutExtension.components ∧
        ups (ofPath base target) + common.length = base.components.length := by
  intro h
  obtain ⟨hfollow, -⟩ := h ⟨"x"⟩ ⟨"a/...ts"⟩ (by decide) (by decide) (by decide)
  exact absurd hfollow (by decide)

end Shortest

end Specifier

end InterfaceSchema
