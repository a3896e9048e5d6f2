import InterfaceSchema.Proofs.Run.Confinement
import InterfaceSchema.Proofs.Run.Succeeding

/-!
# What a run does to another one

Outside its base directory a run leaves everything as it is, and makes nothing
but directories on the way there. A tree before the run and a tree after it are
therefore alike for another run that keeps to other places: this run cleans
alike in both of them, and finds the same source files with the same code.
-/

namespace InterfaceSchema

open FileTree Disk

/-- A directory that a run makes on the way to its base directory. -/
def RunOptions.Makes (options : RunOptions) (tree : FileTree) (place : Place) : Prop :=
  place ∈ options.baseDir.route tree.current ∧ tree.node? place = none

/-- A place that a run leaves alone. -/
def RunOptions.Spares (options : RunOptions) (tree : FileTree) (place : Place) : Prop :=
  ¬options.baseDir.place tree.current <+: place ∧ ¬options.Makes tree place

/-- What a run leaves behind, as seen from outside its base directory. -/
structure Beside (options : RunOptions) (tree later : FileTree) : Prop where
  current : later.current = tree.current
  wellFormed : tree.WellFormed → later.WellFormed
  kept : ∀ place node, ¬options.baseDir.place tree.current <+: place →
    tree.node? place = some node → later.node? place = some node
  back : ∀ place node, ¬options.baseDir.place tree.current <+: place →
    later.node? place = some node →
      tree.node? place = some node ∨ node = .directory ∧ options.Makes tree place

section Beside

variable {options : RunOptions} {tree later : FileTree} {place : Place}

/-- A run makes nothing outside its base directory but directories on the way
there, whether or not it succeeds. -/
theorem outcome_beside (htree : tree.WellFormed) (hne : options.inputDir.text ≠ [])
    (hstem : ∀ list, IsSource tree options.inputDir list → stemName list ≠ "..".toList) :
    Beside options tree (outcome options tree).2 := by
  have hallows : Allows options (fun place => options.baseDir.place tree.current <+: place)
      (fun place => place ∈ options.baseDir.route tree.current ∨
        options.baseDir.place tree.current <+: place) tree.current :=
    ⟨fun _ hbelow => ⟨hbelow, .inr hbelow⟩, fun _ => .inl⟩
  obtain ⟨cleaned, hcleaned, hconfined⟩ := run_confined htree hallows
    fun list path hlist houtput => by
      obtain ⟨hplace, hroute⟩ :=
        houtput.below hne (hlist.leadDown htree) (hstem list hlist) tree.current
      exact ⟨hplace, hroute⟩
  have hkept : ∀ place, ¬options.baseDir.place tree.current <+: place →
      cleaned.node? place = tree.node? place := by
    intro place hplace
    rcases hcleaned with rfl | rfl
    · rfl
    · rw [node?_remove, if_neg fun hboth => hplace hboth.1]
  have hcurrent : cleaned.current = tree.current := by rcases hcleaned with rfl | rfl <;> rfl
  have hwell : cleaned.WellFormed := by
    rcases hcleaned with rfl | rfl
    · exact htree
    · exact htree.remove _
  refine ⟨hconfined.current.trans hcurrent, fun _ => hconfined.wellFormed hwell,
    fun place node hplace hnode => ?_, fun place node hplace hnode => ?_⟩
  · rw [← hkept place hplace] at hnode
    cases node with
    | directory => exact hconfined.directory place hnode
    | file content => exact (hconfined.untouched place content hplace).2 hnode
  · rw [← hkept place hplace]
    cases node with
    | file content => exact .inl ((hconfined.untouched place content hplace).1 hnode)
    | directory =>
      by_cases hroute : place ∈ options.baseDir.route tree.current
      · rcases hheld : cleaned.node? place with _ | _ | content
        · exact .inr ⟨rfl, hroute, (hkept place hplace).symm.trans hheld⟩
        · exact .inl rfl
        · have hfile := (hconfined.untouched place content hplace).2 hheld
          rw [hnode] at hfile
          cases hfile
      · exact .inl ((hconfined.elsewhere place (not_or.2 ⟨hroute, hplace⟩)).symm.trans hnode)

/-- A run that succeeds. -/
theorem beside_of_ran {summary : RunSummary} (htree : tree.WellFormed)
    (hne : options.inputDir.text ≠ [])
    (hstem : ∀ list, IsSource tree options.inputDir list → stemName list ≠ "..".toList)
    (hran : Ran (Run.run options) tree summary later) : Beside options tree later := by
  have hlater : (outcome options tree).2 = later := congrArg Prod.snd hran
  exact hlater ▸ outcome_beside htree hne hstem

/-- What stands outside the base directory fits what stands there later. -/
theorem Beside.fits {part : Place → Prop} (h : Beside options tree later)
    (hpart : ∀ place, part place → ¬options.baseDir.place tree.current <+: place) :
    Fits part tree later :=
  ⟨h.current, fun place hplace => h.kept place _ (hpart place hplace),
    fun place content hplace hnode => ⟨content, h.kept place _ (hpart place hplace) hnode⟩⟩

/-- Files outside the base directory stay as they are. -/
theorem Beside.file_iff (h : Beside options tree later)
    (hplace : ¬options.baseDir.place tree.current <+: place) (content : Content) :
    later.node? place = some (.file content) ↔ tree.node? place = some (.file content) := by
  refine ⟨fun hnode => ?_, h.kept place _ hplace⟩
  rcases h.back place _ hplace hnode with hold | ⟨hdirectory, -⟩
  · exact hold
  · cases hdirectory

end Beside

/-- A tree with directories on the way to everything in the places that a run
leaves alone. -/
def Firm (other : RunOptions) (start tree : FileTree) : Prop :=
  ∀ place node, other.Spares start place → tree.node? place = some node →
    ∀ above, above <+: place → above ≠ place → tree.node? above = some .directory

/-- Trees that are the same but for what a run cleans, writes and makes from a
start. -/
structure Alike (other : RunOptions) (start first second : FileTree) : Prop where
  current_first : first.current = start.current
  current_second : second.current = start.current
  same : ∀ place, other.Spares start place → second.node? place = first.node? place
  /-- No file stands where a directory may be made. -/
  file_first : ∀ place content, ¬other.baseDir.place start.current <+: place →
    first.node? place = some (.file content) → other.Spares start place
  file_second : ∀ place content, ¬other.baseDir.place start.current <+: place →
    second.node? place = some (.file content) → other.Spares start place
  firm_first : Firm other start first
  firm_second : Firm other start second

/-- The trees before a run and after it are alike. -/
theorem Beside.alike {other : RunOptions} {tree later : FileTree} (h : Beside other tree later)
    (hrooted : tree.Rooted) : Alike other tree tree later := by
  have hsame : ∀ place, other.Spares tree place → later.node? place = tree.node? place := by
    intro place hplace
    rcases hnode : tree.node? place with _ | node
    · rcases hlater : later.node? place with _ | node
      · rfl
      · rcases h.back place node hplace.1 hlater with hold | ⟨-, hmade⟩
        · exact hold.symm.trans hnode
        · exact absurd hmade hplace.2
    · exact h.kept place node hplace.1 hnode
  have hfile : ∀ place content, ¬other.baseDir.place tree.current <+: place →
      tree.node? place = some (.file content) → other.Spares tree place := by
    intro place content hplace hnode
    refine ⟨hplace, fun hmade => ?_⟩
    rw [hmade.2] at hnode
    cases hnode
  have hfirm : Firm other tree tree := by
    rintro place node - hnode above ⟨below, rfl⟩ hne
    exact hrooted.directory (fun hnil => hne (by rw [hnil, List.append_nil])) hnode
  refine ⟨rfl, h.current, hsame, hfile, fun place content hplace hnode => ?_, hfirm, ?_⟩
  · exact hfile place content hplace ((h.file_iff hplace content).1 hnode)
  · intro place node hplace hnode above habove hne
    rw [hsame place hplace] at hnode
    exact h.kept above _ (fun hbelow => hplace.1 (hbelow.trans habove))
      (hfirm place node hplace hnode above habove hne)

/-- A path that another run leaves alone: what it enters lies above its place,
or is neither cleaned nor made by the other run. -/
def Path.Steady (path : Path) (other : RunOptions) (tree : FileTree) : Prop :=
  ∀ entered ∈ path.route tree.current,
    entered <+: path.place tree.current ∨ other.Spares tree entered

/-- A path without double dots is left alone by every run. -/
theorem Path.steady_of_up_notMem {path : Path} (hup : "..".toList ∉ names path)
    (other : RunOptions) (tree : FileTree) : path.Steady other tree := by
  intro entered hentered
  rcases Path.prefix_or_left_of_mem_route hentered with hprefix | hleft
  · exact .inl hprefix
  · rw [Path.left, Place.left_of_up_notMem hup] at hleft
    cases hleft

namespace Alike

variable {options other : RunOptions} {start first second : FileTree} {place : Place} {path : Path}
  {list : List Text} {content : Content}

/-- The trees may be exchanged. -/
theorem symm (h : Alike other start first second) : Alike other start second first :=
  ⟨h.current_second, h.current_first, fun place hplace => (h.same place hplace).symm,
    h.file_second, h.file_first, h.firm_second, h.firm_first⟩

/-- The same files stand outside the base directory. -/
theorem file_iff (h : Alike other start first second)
    (hplace : ¬other.baseDir.place start.current <+: place) (content : Content) :
    second.node? place = some (.file content) ↔ first.node? place = some (.file content) := by
  constructor
  · intro hnode
    rw [← h.same place (h.file_second place content hplace hnode)]
    exact hnode
  · intro hnode
    rw [h.same place (h.file_first place content hplace hnode)]
    exact hnode

/-- The same place may be removed from both trees. -/
theorem remove (h : Alike other start first second) (gone : Place) :
    Alike other start (first.remove gone) (second.remove gone) := by
  have hfile : ∀ (tree : FileTree) place content,
      (tree.remove gone).node? place = some (.file content) →
        tree.node? place = some (.file content) := by
    intro tree place content hnode
    rw [node?_remove] at hnode
    split at hnode
    · cases hnode
    · exact hnode
  have hfirm : ∀ tree, Firm other start tree → Firm other start (tree.remove gone) := by
    intro tree hfirm place node hplace hnode above habove hne
    rw [node?_remove] at hnode ⊢
    split at hnode
    · cases hnode
    · next hkept =>
      have hleft : ¬(gone <+: above ∧ above ≠ []) := fun ⟨hgone, hroot⟩ =>
        hkept ⟨hgone.trans habove, fun hnil => hroot (List.prefix_nil.1 (hnil ▸ habove))⟩
      rw [if_neg hleft]
      exact hfirm place node hplace hnode above habove hne
  refine ⟨h.current_first, h.current_second, fun place hplace => ?_,
    fun place content hplace hnode => h.file_first place content hplace (hfile _ _ _ hnode),
    fun place content hplace hnode => h.file_second place content hplace (hfile _ _ _ hnode),
    hfirm first h.firm_first, hfirm second h.firm_second⟩
  rw [node?_remove, node?_remove, h.same place hplace]

/-- A steady path leads to the same directory, if it is there. -/
theorem find_directory (h : Alike other start first second) (hsteady : path.Steady other start)
    (hfind : first.find path = .ok (place, .directory))
    (habove : ∀ above, above <+: path.place start.current → second.node? above = some .directory) :
    second.find path = .ok (path.place start.current, .directory) := by
  obtain ⟨hne, -, hroute⟩ := find_directory_route.1 hfind
  rw [h.current_first] at hroute
  rw [find_directory_route, h.current_second]
  refine ⟨hne, rfl, fun entered hentered => ?_⟩
  rcases hsteady entered hentered with hprefix | hspared
  · exact habove entered hprefix
  · rw [h.same entered hspared]
    exact hroute entered hentered

end Alike

/-- Runs with base directories that do not contain one another. The first one
reads from elsewhere, and has no source file whose stem is two dots. -/
structure KeepsApart (options other : RunOptions) (tree : FileTree) : Prop where
  separate : Separate options tree.current
  base : ¬other.baseDir.place tree.current <+: options.baseDir.place tree.current
  outside : ¬options.inputDir.searched.place tree.current <+: other.baseDir.place tree.current
  inside : ¬other.baseDir.place tree.current <+: options.inputDir.searched.place tree.current
  stem : ∀ list, IsSource tree options.inputDir list → stemName list ≠ "..".toList

/-- Such runs, and the paths of the first one lead through no directory that the
other one cleans or makes. -/
structure Undisturbed (options other : RunOptions) (tree : FileTree) : Prop
    extends KeepsApart options other tree where
  steady_base : options.baseDir.Steady other tree
  steady_input : options.inputDir.searched.Steady other tree

section Undisturbed

variable {options other : RunOptions} {start first second cleaned again : FileTree}
  {place : Place} {list : List Text} {content : Content} {made : List (Path × Text)}

/-- Nothing below the input directory lies below the other base directory. -/
theorem KeepsApart.not_prefix_input (h : KeepsApart options other start) (list : List Text) :
    ¬other.baseDir.place start.current <+:
      options.inputDir.searched.place start.current ++ list :=
  Place.not_prefix_append h.inside h.outside list

/-- The other run leaves everything below the base directory alone. -/
theorem Undisturbed.spares_below (h : Undisturbed options other start)
    (hother : Undisturbed other options start)
    (hbelow : options.baseDir.place start.current <+: place) : other.Spares start place := by
  constructor
  · obtain ⟨list, rfl⟩ := hbelow
    exact Place.not_prefix_append h.base hother.base list
  · intro hmade
    rcases hother.steady_base _ hmade.1 with hprefix | hspared
    · exact hother.base (hbelow.trans hprefix)
    · exact hspared.1 hbelow

/-- What a run enters on the way to its output does not lie below the other base
directory. -/
theorem Undisturbed.outside_of_entered (h : Undisturbed options other start)
    (hother : Undisturbed other options start)
    (hplace : place ∈ options.baseDir.route start.current ∨
      options.baseDir.place start.current <+: place) :
    ¬other.baseDir.place start.current <+: place := by
  rcases hplace with hroute | hbelow
  · rcases h.steady_base place hroute with hprefix | hspared
    · exact fun hinside => h.base (hinside.trans hprefix)
    · exact hspared.1
  · exact (h.spares_below hother hbelow).1

/-- Source files are as before another run. -/
theorem Undisturbed.stem_beside (h : Undisturbed options other start)
    (hbeside : Beside other start again) (hsource : IsSource again options.inputDir list) :
    stemName list ≠ "..".toList := by
  obtain ⟨content, hnode⟩ := hsource.file
  rw [hbeside.current] at hnode
  exact h.stem list ⟨⟨content, (hbeside.file_iff (h.not_prefix_input list) content).1 hnode⟩,
    hsource.ending⟩

namespace Alike

variable (h : Alike other start first second) (hundisturbed : Undisturbed options other start)

include h hundisturbed

section Base

variable (hother : Undisturbed other options start)

include hother

/-- The base directory is found in both trees. -/
theorem find_base (hfind : first.find options.baseDir = .ok (place, .directory)) :
    second.find options.baseDir = .ok (options.baseDir.place start.current, .directory) := by
  have hspared := hundisturbed.spares_below hother List.prefix_rfl
  have hnode := node?_of_find options.names_baseDir options.isName_target hfind
  rw [FileTree.find_directory hfind, h.current_first, ← h.same _ hspared] at hnode
  refine h.find_directory hundisturbed.steady_base hfind fun above habove => ?_
  by_cases heq : above = options.baseDir.place start.current
  · rw [heq, hnode]
  · exact h.firm_second _ _ hspared hnode above habove heq

/-- A file in the place of the base directory is found in both trees. -/
theorem find_base_file (hfind : first.find options.baseDir = .ok (place, .file content)) :
    ∃ found, second.find options.baseDir = .ok (found, .file content) := by
  have hspared := hundisturbed.spares_below hother List.prefix_rfl
  have hwants := (find_file_iff.1 hfind).2
  obtain ⟨rfl, hnode, hdirs⟩ :=
    (find_file_route options.names_baseDir options.isName_target hwants).1 hfind
  rw [h.current_first] at hnode hdirs
  have hlater := hnode
  rw [← h.same _ hspared] at hlater
  refine ⟨_, (find_file_route options.names_baseDir options.isName_target hwants).2
    ⟨rfl, h.current_second ▸ hlater, ?_⟩⟩
  rw [h.current_second]
  intro entered hentered
  have hroute : entered ∈ options.baseDir.route start.current := by
    rw [Path.route, options.names_baseDir, Place.route_append, List.mem_append]
    exact .inl hentered
  rcases hundisturbed.steady_base entered hroute with hprefix | hleft
  · refine h.firm_second _ _ hspared hlater entered hprefix ?_
    rintro rfl
    rw [hdirs _ hentered] at hnode
    cases hnode
  · rw [h.same entered hleft]
    exact hdirs entered hentered

end Base

/-- Both trees can be cleaned, and are alike then. -/
theorem cleanOutput (hother : Undisturbed other options start)
    (hclean : Ran (Run.cleanOutput options) first () cleaned) :
    ∃ again, Ran (Run.cleanOutput options) second () again ∧ Alike other start cleaned again := by
  have hcleans : ∃ again, Ran (Run.cleanOutput options) second () again := by
    refine cleanOutput_succeeds fun hset place content hfind => ?_
    obtain ⟨found, hfile⟩ := h.symm.find_base_file hundisturbed hother hfind
    exact not_file_of_cleanOutput hclean hset hfile
  obtain ⟨again, hagain⟩ := hcleans
  refine ⟨again, hagain, ?_⟩
  have hfound : options.clean = true →
      ((second.find options.baseDir).toBool = true ↔ (first.find options.baseDir).toBool = true) := by
    intro hset
    rcases hfirst : first.find options.baseDir with cause | ⟨place, _ | content⟩
    · rcases hsecond : second.find options.baseDir with cause | ⟨place, _ | content⟩
      · rfl
      · rw [h.symm.find_base hundisturbed hother hsecond] at hfirst
        cases hfirst
      · exact absurd hsecond (not_file_of_cleanOutput hagain hset)
    · rw [h.find_base hundisturbed hother hfirst]
      rfl
    · exact absurd hfirst (not_file_of_cleanOutput hclean hset)
  rw [cleanOutput_ok hclean, cleanOutput_ok hagain, h.current_first, h.current_second]
  by_cases hset : options.clean = true
  · by_cases hthere : (first.find options.baseDir).toBool = true
    · rw [if_pos ⟨hset, hthere⟩, if_pos ⟨hset, (hfound hset).2 hthere⟩]
      exact h.remove _
    · rw [if_neg fun hboth => hthere hboth.2,
        if_neg fun hboth => hthere ((hfound hset).1 hboth.2)]
      exact h
  · rw [if_neg fun hboth => hset hboth.1, if_neg fun hboth => hset hboth.1]
    exact h

/-- Files below the input directory stand in directories. -/
theorem paved_input : first.Paved (options.inputDir.searched.place start.current) := by
  intro list content hnode above habove hne
  have hspared := h.file_first _ content (hundisturbed.not_prefix_input list) hnode
  refine h.firm_first _ _ hspared hnode _ ((List.prefix_append_right_inj _).2 habove) ?_
  exact fun heq => hne (List.append_cancel_left heq)

/-- Files below the base directory stand in directories. -/
theorem paved_base (hother : Undisturbed other options start) :
    first.Paved (options.baseDir.place start.current) := by
  intro list content hnode above habove hne
  have hspared := hundisturbed.spares_below hother (List.prefix_append _ list)
  refine h.firm_first _ _ hspared hnode _ ((List.prefix_append_right_inj _).2 habove) ?_
  exact fun heq => hne (List.append_cancel_left heq)

/-- The input directory of a source file is found in both trees. -/
theorem find_input (hfirst : first.WellFormed) (hmem : list ∈ sources first options.inputDir) :
    second.find options.inputDir.searched =
      .ok (options.inputDir.searched.place start.current, .directory) := by
  obtain ⟨place, hfind⟩ := find_of_mem_sources hmem
  have hsource := isSource_of_mem_sources hfirst hmem
  obtain ⟨content, hnode⟩ := hsource.file
  rw [h.current_first] at hnode
  have hspared := h.file_first _ content (hundisturbed.not_prefix_input list) hnode
  rw [← h.same _ hspared] at hnode
  refine h.find_directory hundisturbed.steady_input hfind fun above habove => ?_
  refine h.firm_second _ _ hspared hnode above (habove.trans (List.prefix_append _ _)) fun heq => ?_
  have hlength := habove.length_le
  rw [heq, List.length_append] at hlength
  have hpos := List.length_pos_iff.2 (ne_nil_of_endsAsSource hsource.ending)
  omega

/-- A source file of one tree is a source file of the other. -/
theorem mem_sources (hfirst : first.WellFormed) (hsecond : second.WellFormed)
    (hmem : list ∈ sources first options.inputDir) : list ∈ sources second options.inputDir := by
  have hsource := isSource_of_mem_sources hfirst hmem
  obtain ⟨content, hnode⟩ := hsource.file
  rw [h.current_first] at hnode
  refine (Disk.mem_sources hsecond ⟨_, h.find_input hundisturbed hfirst hmem⟩).2
    ⟨⟨content, ?_⟩, hsource.ending⟩
  rw [h.current_second]
  exact (h.file_iff (hundisturbed.not_prefix_input list) content).2 hnode

/-- Without source files in one tree there are none in the other. -/
theorem sources_eq_nil (hfirst : first.WellFormed) (hsecond : second.WellFormed)
    (hnone : sources first options.inputDir = []) : sources second options.inputDir = [] := by
  refine List.eq_nil_iff_forall_not_mem.2 fun list hlist => ?_
  have hmem := h.symm.mem_sources hundisturbed hsecond hfirst hlist
  rw [hnone] at hmem
  cases hmem

/-- Source files have the same code in both trees. -/
theorem reads (hfirst : first.WellFormed) (hsecond : second.WellFormed)
    (hreads : Reads options first made) (hmade : made ≠ []) : Reads options second made := by
  obtain ⟨list, hlist⟩ := List.exists_mem_of_ne_nil _ (hreads.sources_ne_nil hmade)
  obtain ⟨place, hfind⟩ := find_of_mem_sources hlist
  obtain rfl := FileTree.find_directory hfind
  have hcurrent : second.current = first.current := h.current_second.trans h.current_first.symm
  have hfindAgain := h.find_input hundisturbed hfirst hlist
  have hpaved := h.paved_input hundisturbed
  have hpavedAgain := h.symm.paved_input hundisturbed
  rw [← h.current_first] at hfindAgain hpaved hpavedAgain
  refine hreads.of_files hfirst hsecond hcurrent hpaved hfind hfindAgain hpavedAgain
    fun list content => h.file_iff ?_ content
  rw [h.current_first]
  exact hundisturbed.not_prefix_input list

end Alike

end Undisturbed

end InterfaceSchema
