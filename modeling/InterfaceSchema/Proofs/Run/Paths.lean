import InterfaceSchema.Proofs.Disk.Making
import InterfaceSchema.Proofs.Run.History

/-!
# The paths of a run's output

All output has paths that lead through the base directory and end with a name.
A schema file lies below the base directory, however the input directory is
spelled, and so does a barrel unless the stem of its source file leads up.
-/

namespace InterfaceSchema

open FileTree Disk

/-- Input and base directories of which neither contains the other. -/
structure Separate (options : RunOptions) (current : Place) : Prop where
  outside : ¬options.inputDir.searched.place current <+: options.baseDir.place current
  inside : ¬options.baseDir.place current <+: options.inputDir.searched.place current

section Separate

variable {options : RunOptions} {current : Place}

/-- The input directory is given, because the root contains everything. -/
theorem Separate.ne_nil (h : Separate options current) : options.inputDir.text ≠ [] := by
  intro hempty
  refine h.outside ?_
  rw [Path.searched, hempty]
  exact List.nil_prefix

/-- Nothing below the input directory lies below the base directory. -/
theorem Separate.not_prefix (h : Separate options current) (list : List Text) :
    ¬options.baseDir.place current <+: options.inputDir.searched.place current ++ list :=
  Place.not_prefix_append h.inside h.outside list

end Separate

/-- The names of a source file as seen from a directory. A directory with a
leading dot is not seen in its path, so that only the last name is left. -/
def seenNames (directory : Path) (list : List Text) : List Text :=
  if directory.components.head? = some .here then list.getLast?.toList else list

section Seen

variable {directory : Path} {list : List Text}

/-- What is seen leads down. -/
theorem leadDown_seenNames (directory : Path) (h : LeadDown list) :
    LeadDown (seenNames directory list) := by
  rw [seenNames]
  split
  · rw [List.getLast?_eq_some_getLast h.ne_nil]
    exact ⟨by simp, by simpa using h.isName _ (List.getLast_mem h.ne_nil)⟩
  · exact h

/-- The path to a source file has no leading dot. -/
theorem here_notMem_components (directory : Path) (h : LeadDown list) :
    Component.here ∉ (sourcePath directory list).components := by
  rw [components_sourcePath directory h]
  simp only [List.mem_append, List.mem_filterMap, List.mem_map, not_or]
  refine ⟨?_, ?_, ?_⟩
  · split <;> simp
  · rintro ⟨name, hname, hcomponent⟩
    obtain ⟨hne, -, hdot⟩ := countedNames_proper directory name hname
    obtain ⟨component, hsome, -, -, hhere⟩ := component?_isSome hne hdot
    exact hhere (Option.some.inj (hsome.symm.trans hcomponent))
  · simp

/-- A source file as seen from the directory it was looked for in. -/
theorem relativeInput_eq_seenNames (hne : directory.text ≠ []) (h : LeadDown list) :
    relativeInput (sourcePath directory list) directory =
      ⟨Text.joinWith "/" (seenNames directory list)⟩ := by
  rw [seenNames]
  split
  · next hhere =>
    have hprefix : ¬directory.components.isPrefixOf (sourcePath directory list).components := by
      intro hprefix
      have hmem : Component.here ∈ directory.components := List.mem_of_mem_head? hhere
      exact here_notMem_components directory h
        ((List.isPrefixOf_iff_prefix.1 hprefix).subset hmem)
    rw [relativeInput, Path.relativeTo?, if_neg hprefix, fileName?_sourcePath directory h,
      List.getLast?_eq_some_getLast h.ne_nil]
    simp
  · next hhere => exact relativeInput_sourcePath ⟨hne, hhere⟩ h

end Seen

/-- A path that leads through the base directory and ends with a name. -/
structure LeadsFromBase (options : RunOptions) (path : Path) (rest : List Text) (name : Text) :
    Prop where
  isAbsolute : path.isAbsolute = options.baseDir.isAbsolute
  names : FileTree.names path = FileTree.names options.baseDir ++ rest ++ [name]
  isName : IsName name

namespace LeadsFromBase

variable {options : RunOptions} {path : Path} {rest : List Text} {name : Text}

/-- Such a path ends at the place its names lead to from the base directory. -/
theorem place (h : LeadsFromBase options path rest name) (current : Place) :
    path.place current = Place.follow (options.baseDir.place current) rest ++ [name] := by
  rw [place_of_names h.names h.isName, Place.follow_append, Path.start, h.isAbsolute]
  rfl

/-- Such a path enters what the base directory does, and what its names enter
from there. -/
theorem route (h : LeadsFromBase options path rest name) (current : Place) :
    path.route current = options.baseDir.route current ++
      Place.route (options.baseDir.place current) (rest ++ [name]) := by
  rw [Path.route, h.names, List.append_assoc, Place.route_append, Path.start, h.isAbsolute]
  rfl

end LeadsFromBase

namespace RunOptions

variable {options : RunOptions} {list : List Text}

/-- The name of a target is a name. -/
theorem isName_target (options : RunOptions) : IsName options.target.name := by
  constructor <;> cases options.target <;> decide

/-- The names of the base directory. -/
theorem names_baseDir (options : RunOptions) :
    names options.baseDir = names options.outputDir ++ [options.target.name] := by
  have hname := options.isName_target
  rw [baseDir, names_join _ (isAbsolute_name hname.slash), names_name hname.ne_nil hname.slash]

/-- A schema file lies where its source file is seen from the input
directory. -/
theorem place_schemaPath_seen (hne : options.inputDir.text ≠ []) (current : Place)
    (h : LeadDown list) :
    (options.schemaPath (sourcePath options.inputDir list)).place current =
      options.baseDir.place current ++ "types".toList :: seenNames options.inputDir list := by
  rw [schemaPath, relativeInput_eq_seenNames hne h,
    place_join_names current _ (leadDown_seenNames options.inputDir h).isName, place_schemaDir,
    List.append_assoc]
  rfl

/-- The path to a schema file leads through the directory for schema files. -/
theorem leads_schemaPath (hne : options.inputDir.text ≠ []) (h : LeadDown list) :
    LeadsFromBase options (options.schemaPath (sourcePath options.inputDir list))
      ("types".toList :: (seenNames options.inputDir list).dropLast)
      ((seenNames options.inputDir list).getLast (leadDown_seenNames _ h).ne_nil) := by
  have hseen := leadDown_seenNames options.inputDir h
  have hlist : (seenNames options.inputDir list).dropLast ++
      [(seenNames options.inputDir list).getLast hseen.ne_nil] =
        seenNames options.inputDir list := List.dropLast_append_getLast hseen.ne_nil
  have habs := isAbsolute_joinWith hseen.proper
  refine ⟨?_, ?_, hseen.isName _ (List.getLast_mem hseen.ne_nil)⟩
  · rw [schemaPath, relativeInput_eq_seenNames hne h, isAbsolute_join _ habs, schemaDir,
      isAbsolute_join _ (by decide)]
  · rw [schemaPath, relativeInput_eq_seenNames hne h, names_join _ habs,
      names_joinWith hseen.proper, schemaDir, names_join _ (by decide), List.append_assoc,
      List.append_assoc, List.cons_append, hlist]
    rfl

/-- A barrel of a source file has a path that leads by the stem. -/
theorem leads_barrelPath (options : RunOptions) (h : LeadDown list) (kind : BarrelKind) :
    LeadsFromBase options (options.barrelPath (sourcePath options.inputDir list) kind)
      [stemName list] kind.fileName := by
  have hfile : IsName kind.fileName := by constructor <;> cases kind <;> decide
  obtain ⟨hstem, hslash⟩ := stemName_proper h
  refine ⟨?_, ?_, hfile⟩
  · rw [barrelPath, isAbsolute_join _ (isAbsolute_name hfile.slash), barrelDir_sourcePath options h,
      isAbsolute_join _ (isAbsolute_name hslash)]
  · rw [barrelPath, names_join _ (isAbsolute_name hfile.slash), names_name hfile.ne_nil hfile.slash,
      barrelDir_sourcePath options h, names_join _ (isAbsolute_name hslash),
      names_name hstem hslash]

end RunOptions

/-- The paths of the output for a source file. -/
inductive IsOutputPath (options : RunOptions) (list : List Text) : Path → Prop
  | schema : IsOutputPath options list (options.schemaPath (sourcePath options.inputDir list))
  | barrel (kind : BarrelKind) :
    IsOutputPath options list (options.barrelPath (sourcePath options.inputDir list) kind)

section Output

variable {options : RunOptions} {tree : FileTree} {list : List Text} {path : Path}
  {current place : Place} {content : Content}

/-- Output leads through the base directory, and out of it only by a stem of
two dots. -/
theorem IsOutputPath.leads (h : IsOutputPath options list path) (hne : options.inputDir.text ≠ [])
    (hdown : LeadDown list) : ∃ rest name, LeadsFromBase options path rest name ∧
      ("..".toList ∉ rest ∨ rest = ["..".toList] ∧ stemName list = "..".toList) := by
  cases h with
  | schema =>
    refine ⟨_, _, RunOptions.leads_schemaPath hne hdown, .inl fun hup => ?_⟩
    have hseen := leadDown_seenNames options.inputDir hdown
    rcases List.mem_cons.1 hup with heq | hmem
    · exact absurd heq (by decide)
    · exact (hseen.isName _ (List.dropLast_subset _ hmem)).ne_up rfl
  | barrel kind =>
    refine ⟨_, _, RunOptions.leads_barrelPath options hdown kind, ?_⟩
    by_cases hup : stemName list = "..".toList
    · exact .inr ⟨by rw [hup], hup⟩
    · exact .inl fun hmem => hup (List.mem_singleton.1 hmem).symm

/-- Without a stem of two dots, output lies below the base directory, and so
does everything its path enters behind it. -/
theorem IsOutputPath.below (h : IsOutputPath options list path) (hne : options.inputDir.text ≠ [])
    (hdown : LeadDown list) (hstem : stemName list ≠ "..".toList) (current : Place) :
    options.baseDir.place current <+: path.place current ∧
      ∀ entered ∈ path.route current,
        entered ∈ options.baseDir.route current ∨ options.baseDir.place current <+: entered := by
  obtain ⟨rest, name, hleads, hrest⟩ := h.leads hne hdown
  have hup : "..".toList ∉ rest := hrest.resolve_right fun hboth => hstem hboth.2
  have hupName : "..".toList ∉ rest ++ [name] := by
    rw [List.mem_append, List.mem_singleton]
    exact not_or.2 ⟨hup, fun heq => hleads.isName.ne_up heq.symm⟩
  constructor
  · rw [hleads.place, Place.follow_of_up_notMem hup, List.append_assoc]
    exact List.prefix_append _ _
  · intro entered hentered
    rw [hleads.route, List.mem_append] at hentered
    exact hentered.imp_right (Place.prefix_of_mem_route hupName)

/-- What lies above a file of output lies above the base directory or below
it. -/
theorem IsOutputPath.prefix_or_prefix (h : IsOutputPath options list path)
    (hne : options.inputDir.text ≠ []) (hdown : LeadDown list)
    (hplace : place <+: (path.place current).dropLast) :
    place <+: options.baseDir.place current ∨ options.baseDir.place current <+: place := by
  obtain ⟨rest, name, hleads, hrest⟩ := h.leads hne hdown
  rw [hleads.place, List.dropLast_concat] at hplace
  rcases hrest with hup | ⟨rfl, -⟩
  · rw [Place.follow_of_up_notMem hup] at hplace
    exact List.prefix_or_prefix_of_prefix hplace (List.prefix_append _ _)
  · exact .inl (hplace.trans (List.dropLast_prefix _))

/-- There are directories between the base directory and output that is
found. -/
theorem IsOutputPath.directory (h : IsOutputPath options list path)
    (hne : options.inputDir.text ≠ []) (hdown : LeadDown list) {found : Place}
    (hfind : tree.find path = .ok (found, .file content))
    (hbelow : options.baseDir.place tree.current <+: place) (habove : place <+: found)
    (hshort : place ≠ found) : tree.node? place = some .directory := by
  obtain ⟨rest, name, hleads, -⟩ := h.leads hne hdown
  have hwants := (find_file_iff.1 hfind).2
  obtain ⟨rfl, -, hdirs⟩ := (find_file_route hleads.names hleads.isName hwants).1 hfind
  have hdrop := Place.prefix_dropLast habove hshort
  rw [hleads.place, List.dropLast_concat] at hdrop
  refine hdirs place ?_
  rw [Place.route_append, Path.start, hleads.isAbsolute, List.mem_append]
  rcases Place.prefix_or_mem_route hdrop with hprefix | hmem
  · -- the base directory itself is entered
    obtain rfl := hprefix.eq_of_length (le_antisymm hprefix.length_le hbelow.length_le)
    exact .inl (place_mem_route options.names_baseDir options.isName_target tree.current)
  · exact .inr hmem

/-- The base directory is found if output is. -/
theorem IsOutputPath.find_baseDir (h : IsOutputPath options list path)
    (hne : options.inputDir.text ≠ []) (hdown : LeadDown list)
    (hfind : tree.find path = .ok (place, .file content)) :
    tree.find options.baseDir = .ok (options.baseDir.place tree.current, .directory) := by
  obtain ⟨rest, name, hleads, -⟩ := h.leads hne hdown
  have hwants := (find_file_iff.1 hfind).2
  obtain ⟨-, -, hdirs⟩ := (find_file_route hleads.names hleads.isName hwants).1 hfind
  refine find_directory_route.2 ⟨options.baseDir_text, rfl, fun entered hentered => ?_⟩
  refine hdirs entered ?_
  rw [Place.route_append, Path.start, hleads.isAbsolute, List.mem_append]
  exact .inl hentered

/-- A directory that lies apart from the base directory does not lie above
output. -/
theorem IsOutputPath.not_prefix (h : IsOutputPath options list path)
    (hseparate : Separate options current) (hdown : LeadDown list)
    (hne : options.inputDir.searched.place current ≠ path.place current) :
    ¬options.inputDir.searched.place current <+: path.place current := fun hprefix =>
  (h.prefix_or_prefix hseparate.ne_nil hdown (Place.prefix_dropLast hprefix hne)).elim
    hseparate.outside hseparate.inside

end Output

end InterfaceSchema
