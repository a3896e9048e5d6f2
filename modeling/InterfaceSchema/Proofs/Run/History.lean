import InterfaceSchema.Proofs.Run.Phases
import Mathlib.Data.List.Nodup

/-!
# The history of a run

Where the files of a run lie, seen from the base directory: schema files lie
where their source files lie in the input directory, and barrels in a
directory of their own for each stem. A run that succeeds and has source files
goes through all its phases.
-/

namespace InterfaceSchema

open FileTree Disk

/-- The stem of the file that names lead to. -/
def stemName (list : List Text) : Text := stemOf (list.getLast?.getD [])

section Stems

variable {name : Text} {list : List Text}

/-- The stem of a name is not empty and has no slashes. -/
theorem stemOf_proper (h : IsName name) : stemOf name ≠ [] ∧ '/' ∉ stemOf name := by
  have hslash : '/' ∉ (name.reverse.dropWhile (· != '.')).tail.reverse := fun hmem =>
    h.slash (List.mem_reverse.1 ((List.dropWhile_suffix _).subset
      (List.mem_of_mem_tail (List.mem_reverse.1 hmem))))
  rw [stemOf, if_neg h.ne_up]
  dsimp only
  split
  · exact ⟨h.ne_nil, h.slash⟩
  · next hne => exact ⟨by simpa using hne, hslash⟩

/-- The stem of a source file. -/
theorem stemName_proper (h : LeadDown list) :
    stemName list ≠ [] ∧ '/' ∉ stemName list := by
  rw [stemName, List.getLast?_eq_some_getLast h.ne_nil]
  exact stemOf_proper (h.isName _ (List.getLast_mem h.ne_nil))

/-- The file name of a source file without its extension. -/
theorem fileStem?_eq_stemName (directory : Path) (h : LeadDown list) :
    (sourcePath directory list).fileStem? = some (stemName list) := by
  rw [fileStem?_sourcePath directory h, stemName, List.getLast?_eq_some_getLast h.ne_nil]
  rfl

end Stems

namespace RunOptions

variable {options : RunOptions} {list : List Text}

/-- The base directory lies in the output directory. -/
theorem place_baseDir (options : RunOptions) (current : Place) :
    options.baseDir.place current = options.outputDir.place current ++ [options.target.name] := by
  have hname : IsName options.target.name := by
    constructor <;> cases options.target <;> decide
  exact place_join_name current options.outputDir hname

/-- The directory for schema files lies in the base directory. -/
theorem place_schemaDir (options : RunOptions) (current : Place) :
    options.schemaDir.place current = options.baseDir.place current ++ ["types".toList] := by
  have hname : IsName "types" := by constructor <;> decide
  exact place_join_name current options.baseDir hname

/-- The schema file of a source file. -/
theorem schemaPath_sourcePath (hplain : options.inputDir.Plain) (h : LeadDown list) :
    options.schemaPath (sourcePath options.inputDir list) =
      options.schemaDir.join ⟨Text.joinWith "/" list⟩ := by
  rw [schemaPath, relativeInput_sourcePath hplain h]

/-- A schema file lies where its source file lies in the input directory. -/
theorem place_schemaPath (hplain : options.inputDir.Plain) (current : Place) (h : LeadDown list) :
    (options.schemaPath (sourcePath options.inputDir list)).place current =
      options.baseDir.place current ++ "types".toList :: list := by
  rw [schemaPath_sourcePath hplain h, place_join_names current _ h.isName,
    place_schemaDir, List.append_assoc]
  rfl

/-- The directory for the barrels of a source file. -/
theorem barrelDir_sourcePath (options : RunOptions) (h : LeadDown list) :
    options.barrelDir (sourcePath options.inputDir list) =
      options.baseDir.join ⟨stemName list⟩ := by
  rw [barrelDir, fileStem?_eq_stemName _ h, Option.getD_some]

/-- A barrel lies in a directory for its stem. -/
theorem place_barrelPath (options : RunOptions) (current : Place) (h : LeadDown list)
    (kind : BarrelKind) :
    (options.barrelPath (sourcePath options.inputDir list) kind).place current =
      Place.follow (options.baseDir.place current) [stemName list] ++ [kind.fileName] := by
  have hfile : IsName kind.fileName := by constructor <;> cases kind <;> decide
  obtain ⟨hstem, hslash⟩ := stemName_proper h
  rw [barrelPath, place_join_name current _ hfile, barrelDir_sourcePath options h,
    place_join current _ (isAbsolute_name hslash), names_name hstem hslash]

end RunOptions

section Collisions

variable {base : Place} {first second : Text} {list : List Text}

/-- A stem leads down from a directory, stays there or leads up. -/
theorem follow_cases (base : Place) (name : Text) :
    name = "." ∧ Place.follow base [name] = base ∨
      name = ".." ∧ Place.follow base [name] = base.dropLast ∨
      Place.follow base [name] = base ++ [name] := by
  simp only [Place.follow]
  by_cases hdot : name = "."
  · exact .inl ⟨hdot, if_pos hdot⟩
  · rw [if_neg hdot]
    by_cases hup : name = ".."
    · exact .inr (.inl ⟨hup, if_pos hup⟩)
    · exact .inr (.inr (if_neg hup))

/-- Barrels lie in one directory only if they have the same stem. -/
theorem eq_of_follow_eq (hbase : base ≠ [])
    (h : Place.follow base [first] = Place.follow base [second]) : first = second := by
  have hlength : 0 < base.length := List.length_pos_iff.2 hbase
  have hlengths := congrArg List.length h
  rcases follow_cases base first with ⟨hfirst, heq⟩ | ⟨hfirst, heq⟩ | heq <;>
    rcases follow_cases base second with ⟨hsecond, heq'⟩ | ⟨hsecond, heq'⟩ | heq' <;>
    rw [heq, heq'] at hlengths <;>
    simp only [List.length_dropLast, List.length_append, List.length_singleton] at hlengths
  -- places of different depth are different
  · exact hfirst.trans hsecond.symm
  · omega
  · omega
  · omega
  · exact hfirst.trans hsecond.symm
  · omega
  · omega
  · omega
  · rw [heq, heq'] at h
    simpa using h

/-- A barrel has the place of a schema file only if its stem is that of the
directory for schema files. -/
theorem eq_types_of_follow_eq {name : Text} (hlist : list ≠ [])
    (h : Place.follow base [first] ++ [name] = base ++ "types".toList :: list) :
    first = "types" := by
  have hlength : 0 < list.length := List.length_pos_iff.2 hlist
  have hlengths := congrArg List.length h
  rcases follow_cases base first with ⟨hfirst, heq⟩ | ⟨hfirst, heq⟩ | heq <;>
    rw [heq] at h hlengths <;>
    simp only [List.length_dropLast, List.length_append, List.length_cons, List.length_nil]
      at hlengths
  · omega
  · omega
  · rw [List.append_assoc] at h
    exact (List.cons.inj (List.append_cancel_left h)).1

end Collisions

section Whole

variable {options : RunOptions} {tree later : FileTree}

/-- A directory that is given is the one that is searched. -/
theorem searched_eq_self {directory : Path} (h : directory.text ≠ []) :
    directory.searched = directory := if_neg (by simpa using h)

/-- A joined path is not empty if the second one is not. -/
theorem text_join_ne_nil (base : Path) {path : Path} (h : path.text ≠ []) :
    (base.join path).text ≠ [] := by
  rw [Path.join]
  split
  · exact h
  · split <;> simp [h]

/-- The base directory is given. -/
theorem RunOptions.baseDir_text (options : RunOptions) : options.baseDir.text ≠ [] :=
  text_join_ne_nil options.outputDir (by cases options.target <;> decide)

/-- What a run leaves behind at its end: finished texts of the source files
below the base directory. -/
structure Finished (options : RunOptions) (tree later : FileTree) : Prop where
  grows : Grows (fun place => ∃ list, IsSource tree options.baseDir list ∧
    options.baseDir.place tree.current ++ list = place) tree later
  text : ∀ list text, endsAsSource list = true →
    tree.node? (options.baseDir.place tree.current ++ list) = some (.file (.text text)) →
      later.node? (options.baseDir.place tree.current ++ list) =
        some (.file (.text (options.finished text)))

/-- Completing the specifiers in the source files below the base directory. -/
theorem completeBelow_ok {imports : ImportSummary} (htree : tree.WellFormed)
    (hfind : ∃ place, tree.find options.baseDir = .ok (place, .directory))
    (hfix : options.fixImports = true)
    (h : Ran (Specifier.completeBelow options.baseDir) tree imports later) :
    Finished options tree later := by
  have hsearched := searched_eq_self options.baseDir_text
  have hmem : ∀ list, list ∈ sources tree options.baseDir ↔ IsSource tree options.baseDir list :=
    fun list => mem_sources htree (hsearched.symm ▸ hfind)
  rw [Specifier.completeBelow] at h
  obtain ⟨paths, middle, hpaths, hrest⟩ := ran_bind.1 h
  obtain ⟨rfl, rfl⟩ := sourceFiles_ok hpaths
  obtain ⟨fixed, last, hfiles, hdone⟩ := ran_bind.1 hrest
  obtain ⟨-, rfl⟩ := ran_pure.1 hdone
  have hcompleted := Specifier.completeFiles_ok hfiles
  have hplace : ∀ list ∈ sources middle options.baseDir,
      (sourcePath options.baseDir list).place middle.current =
        options.baseDir.place middle.current ++ list := by
    intro list hlist
    have hsource := (hmem list).1 hlist
    rw [place_sourcePath _ _ (hsource.leadDown htree), hsearched]
  refine ⟨hcompleted.grows.mono ?_, fun list text hending hnode => ?_⟩
  · rintro place ⟨path, hpath, rfl⟩
    obtain ⟨list, hlist, rfl⟩ := List.mem_map.1 hpath
    exact ⟨list, (hmem list).1 hlist, (hplace list hlist).symm⟩
  · have hnodup : (((sources middle options.baseDir).map (sourcePath options.baseDir)).map
        fun path => path.place middle.current).Nodup := by
      have hplaces : (sources middle options.baseDir).map ((fun path => path.place middle.current) ∘
          sourcePath options.baseDir) =
            (sources middle options.baseDir).map (options.baseDir.place middle.current ++ ·) :=
        List.map_congr_left hplace
      rw [List.map_map, hplaces]
      exact List.Nodup.map (fun first second heq => List.append_cancel_left heq)
        (nodup_sources htree _)
    have hlist : list ∈ sources middle options.baseDir :=
      (hmem list).2 ⟨⟨_, hsearched.symm ▸ hnode⟩, hending⟩
    obtain ⟨held, hheld, hlater⟩ :=
      hcompleted.text hnodup _ (List.mem_map_of_mem hlist)
    rw [hplace list hlist] at hheld hlater
    obtain rfl : held = text := by simpa using hheld.symm.trans hnode
    rw [hlater, RunOptions.finished, if_pos hfix]

/-- Completing the specifiers if this should be done. -/
theorem completeOutput_ok {imports : Option ImportSummary} (htree : tree.WellFormed)
    (hfind : ∃ place, tree.find options.baseDir = .ok (place, .directory))
    (h : Ran (Run.completeOutput options) tree imports later) : Finished options tree later := by
  rw [Run.completeOutput] at h
  split at h
  · next hfix =>
    obtain ⟨summary, middle, hbelow, hdone⟩ := ran_bind.1 h
    obtain ⟨-, rfl⟩ := ran_pure.1 hdone
    exact completeBelow_ok htree hfind hfix (ran_within.1 (ran_onDisk.1 hbelow))
  · next hfix =>
    obtain ⟨-, rfl⟩ := ran_pure.1 h
    refine ⟨.refl _ tree, fun list text _ hnode => ?_⟩
    rw [RunOptions.finished, if_neg hfix]
    exact hnode

/-- The base directory is there when a schema file is. -/
theorem find_baseDir {list : List Text} {found : Place × Node} (hplain : options.inputDir.Plain)
    (hlist : LeadDown list)
    (h : tree.find (options.schemaPath (sourcePath options.inputDir list)) = .ok found) :
    ∃ place, tree.find options.baseDir = .ok (place, .directory) := by
  rw [RunOptions.schemaPath_sourcePath hplain hlist] at h
  obtain ⟨place, hschemaDir⟩ := find_of_find_join
    (text_join_ne_nil options.baseDir (by decide : RunOptions.schemaDirName.text ≠ []))
    (isAbsolute_joinWith hlist.proper) (by rw [names_joinWith hlist.proper]; exact hlist.ne_nil) h
  exact find_of_find_join options.baseDir_text (by decide) (by decide) hschemaDir

/-- The source files of a run, by the paths they are listed with. -/
def inputPaths (options : RunOptions) (tree : FileTree) : List Path :=
  (sources tree options.inputDir).map (sourcePath options.inputDir)

/-- The files that are treated are source files. -/
theorem exists_source {made : List (Path × Text)} {source : Path × Text} (htree : tree.WellFormed)
    (hsources : made.map Prod.fst = inputPaths options tree) (h : source ∈ made) :
    ∃ list, IsSource tree options.inputDir list ∧ source.1 = sourcePath options.inputDir list := by
  have hmem : source.1 ∈ inputPaths options tree := hsources ▸ List.mem_map_of_mem h
  obtain ⟨list, hlist, heq⟩ := List.mem_map.1 hmem
  exact ⟨list, isSource_of_mem_sources htree hlist, heq.symm⟩

/-- No source file is treated twice. -/
theorem nodup_inputPaths (htree : tree.WellFormed) (options : RunOptions) :
    (inputPaths options tree).Nodup :=
  (nodup_sources htree options.inputDir).map_on fun _ hfirst _ hsecond heq =>
    sourcePath_injective ((isSource_of_mem_sources htree hfirst).leadDown htree)
      ((isSource_of_mem_sources htree hsecond).leadDown htree) heq

/-- A source file is treated with one text. -/
theorem eq_of_fst_eq {made : List (Path × Text)} {first second : Path × Text}
    (htree : tree.WellFormed) (hsources : made.map Prod.fst = inputPaths options tree)
    (hfirst : first ∈ made) (hsecond : second ∈ made) (heq : first.1 = second.1) : first = second :=
  List.inj_on_of_nodup_map (hsources ▸ nodup_inputPaths htree options) hfirst hsecond heq

/-- All source files are treated, if there are any to be found. -/
theorem exists_mem_of_isSource {made : List (Path × Text)} {list : List Text}
    (htree : tree.WellFormed) (hne : sources tree options.inputDir ≠ [])
    (hsources : made.map Prod.fst = inputPaths options tree)
    (h : IsSource tree options.inputDir list) :
    ∃ text, (sourcePath options.inputDir list, text) ∈ made := by
  obtain ⟨other, hother⟩ := List.exists_mem_of_ne_nil _ hne
  have hmem : sourcePath options.inputDir list ∈ made.map Prod.fst :=
    hsources ▸ List.mem_map_of_mem ((mem_sources htree (find_of_mem_sources hother)).2 h)
  obtain ⟨⟨path, text⟩, hsource, rfl⟩ := List.mem_map.1 hmem
  exact ⟨text, hsource⟩

section Phases

variable {options : RunOptions} {tree later : FileTree} {summary : RunSummary}

/-- The phases of generating. -/
theorem ran_generateAll {inputs : List Path} :
    Ran (Run.generateAll options inputs) tree summary later ↔
      ∃ files generated barrels written imports,
        Ran (Run.generateFiles options inputs) tree files generated ∧
        Ran (Barrel.writeAll options.baseDir options.schemaDir options.inputDir inputs) generated
          barrels written ∧
        Ran (Run.completeOutput options) written imports later ∧
        summary = ⟨options.target, options.baseDir, options.schemaDir, files, barrels, imports,
          false, barrels.skipped⟩ := by
  rw [Run.generateAll]
  constructor
  · intro h
    obtain ⟨files, generated, hfiles, hrest⟩ := ran_bind.1 h
    obtain ⟨barrels, written, hbarrels, hrest⟩ := ran_bind.1 hrest
    obtain ⟨imports, last, hcomplete, hdone⟩ := ran_bind.1 hrest
    obtain ⟨rfl, rfl⟩ := ran_pure.1 hdone
    exact ⟨files, generated, barrels, written, imports, hfiles,
      ran_within.1 (ran_onDisk.1 hbarrels), hcomplete, rfl⟩
  · rintro ⟨files, generated, barrels, written, imports, hfiles, hbarrels, hcomplete, rfl⟩
    exact ran_bind.2 ⟨files, generated, hfiles, ran_bind.2 ⟨barrels, written,
      ran_onDisk.2 (ran_within.2 hbarrels), ran_bind.2 ⟨imports, later, hcomplete,
        ran_pure.2 ⟨rfl, rfl⟩⟩⟩⟩

/-- A run cleans, and generates if there are source files. -/
theorem ran_run : Ran (Run.run options) tree summary later ↔
    ∃ cleaned, Ran (Run.cleanOutput options) tree () cleaned ∧
      (sources cleaned options.inputDir = [] ∧ summary = Run.emptySummary options ∧
          later = cleaned ∨
        sources cleaned options.inputDir ≠ [] ∧
          Ran (Run.generateAll options (inputPaths options cleaned)) cleaned summary later) := by
  have hlist : ∀ cleaned, Ran (ExceptT.lift (sourceFiles options.inputDir) :
      Run.RunM (StateM FileTree) (List Path)) cleaned (inputPaths options cleaned) cleaned :=
    fun _ => ran_lift.2 rfl
  rw [Run.run]
  constructor
  · intro h
    obtain ⟨_, cleaned, hclean, hrest⟩ := ran_bind.1 h
    obtain ⟨inputs, middle, hsources, hrest⟩ := ran_bind.1 hrest
    obtain ⟨rfl, rfl⟩ := sourceFiles_ok hsources
    refine ⟨middle, hclean, ?_⟩
    split at hrest
    · next hnone =>
      obtain ⟨rfl, rfl⟩ := ran_pure.1 hrest
      exact .inl ⟨by simpa using hnone, rfl, rfl⟩
    · next hsome => exact .inr ⟨by simpa using hsome, hrest⟩
  · rintro ⟨cleaned, hclean, hrest⟩
    refine ran_bind.2 ⟨(), cleaned, hclean, ran_bind.2 ⟨_, cleaned, hlist cleaned, ?_⟩⟩
    rcases hrest with ⟨hnone, rfl, rfl⟩ | ⟨hsome, hall⟩
    · rw [if_pos (by simpa [inputPaths] using hnone)]
      exact ran_pure.2 ⟨rfl, rfl⟩
    · rw [if_neg (by simpa [inputPaths] using hsome)]
      exact hall

end Phases

/-- A run with source files goes through all its phases. -/
theorem run_ok {summary : RunSummary} (htree : tree.WellFormed) (hplain : options.inputDir.Plain)
    (h : Ran (Run.run options) tree summary later) (hinputs : summary.noInputs = false) :
    ∃ cleaned generated written made held,
      Ran (Run.cleanOutput options) tree () cleaned ∧ sources cleaned options.inputDir ≠ [] ∧
      Generated options (inputPaths options cleaned) cleaned made summary.files generated ∧
      Barrel.Barrelled options (inputPaths options cleaned) generated held summary.barrels.written
        written ∧
      Finished options written later := by
  obtain ⟨cleaned, hclean, ⟨-, rfl, -⟩ | ⟨hne, hall⟩⟩ := ran_run.1 h
  · cases hinputs
  · obtain ⟨files, generated, barrels, written, imports, hfiles, hbarrels, hcomplete, rfl⟩ :=
      ran_generateAll.1 hall
    have hcleaned : cleaned.WellFormed := (cleanOutput_cleaned hclean).wellFormed htree
    obtain ⟨made, hmade⟩ : ∃ made, Generated options (inputPaths options cleaned) cleaned made
        files generated := generateFiles_ok hfiles
    have hcurrent := hmade.wrote.grows.current
    have hfile : ∀ input ∈ inputPaths options cleaned, ∃ content,
        generated.find (options.schemaPath input) =
          .ok ((options.schemaPath input).place generated.current, .file content) := by
      intro input hinput
      rw [← hmade.sources] at hinput
      obtain ⟨source, hsource, rfl⟩ := List.mem_map.1 hinput
      exact hcurrent ▸ hmade.wrote.find (List.mem_map_of_mem hsource)
    have hstem : ∀ input ∈ inputPaths options cleaned, input.fileStem?.isSome := by
      intro input hinput
      obtain ⟨list, hlist, rfl⟩ := List.mem_map.1 hinput
      have hsource := isSource_of_mem_sources hcleaned hlist
      rw [fileStem?_eq_stemName _ (hsource.leadDown hcleaned)]
      rfl
    obtain ⟨held, hheld⟩ := Barrel.writeAll_ok hstem hfile hbarrels
    -- the base directory is there because the first schema file is
    obtain ⟨list, hlist⟩ := List.exists_mem_of_ne_nil _ hne
    have hsource := isSource_of_mem_sources hcleaned hlist
    obtain ⟨content, hfound⟩ := hfile _ (List.mem_map_of_mem hlist)
    obtain ⟨now, hnow⟩ := hheld.wrote.grows.file _ _ (find_file hfound).2
    have hbase := find_baseDir hplain (hsource.leadDown hcleaned)
      (hheld.wrote.grows.find_file hfound hnow)
    have hwritten : written.WellFormed :=
      hheld.wrote.grows.wellFormed (hmade.wrote.grows.wellFormed hcleaned)
    exact ⟨cleaned, generated, written, made, held, hclean, hne, hmade, hheld,
      completeOutput_ok hwritten hbase hcomplete⟩

/-- A run without source files writes nothing. -/
theorem run_empty {summary : RunSummary} (h : Ran (Run.run options) tree summary later)
    (hinputs : summary.noInputs = true) : summary = Run.emptySummary options := by
  obtain ⟨cleaned, -, ⟨-, hsummary, -⟩ | ⟨-, hall⟩⟩ := ran_run.1 h
  · exact hsummary
  · obtain ⟨files, generated, barrels, written, imports, -, -, -, rfl⟩ := ran_generateAll.1 hall
    cases hinputs

/-- What a run gives and leaves behind, whether or not it succeeds. -/
def outcome (options : RunOptions) (tree : FileTree) : Except RunError RunSummary × FileTree :=
  Id.run (ExceptT.run (Run.run options : Run.RunM (StateM FileTree) RunSummary) tree)

/-- A run that gives a summary succeeds. -/
theorem ran_of_outcome {α : Type} {part : RunSummary → α} {value : α}
    (h : (outcome options tree).1.toOption.map part = some value) :
    ∃ summary, Ran (Run.run options) tree summary (outcome options tree).2 ∧
      part summary = value := by
  rcases hran : outcome options tree with ⟨error | summary, after⟩
  · rw [hran] at h
    cases h
  · rw [hran] at h
    exact ⟨summary, hran, Option.some.inj h⟩

end Whole

/-- The files that a run saves, in order. -/
def savedFiles (options : RunOptions) (made held : List (Path × Text)) : List (Path × Text) :=
  made.map (fun source => (options.schemaPath source.1, source.2)) ++
    held.flatMap (Barrel.barrelWrites options)

section Texts

variable {options : RunOptions} {cleaned generated written : FileTree}
  {made held : List (Path × Text)} {files : List GeneratedFile} {paths : List Path}
  {source other : Path × Text}

/-- Different source files have different schema files. -/
theorem eq_of_place_schemaPath (hwell : cleaned.WellFormed) (hplain : options.inputDir.Plain)
    (hsources : made.map Prod.fst = inputPaths options cleaned) (h : source ∈ made)
    (hother : other ∈ made) (heq : (options.schemaPath source.1).place cleaned.current =
      (options.schemaPath other.1).place cleaned.current) : source = other := by
  obtain ⟨list, hlist, hpath⟩ := exists_source hwell hsources h
  obtain ⟨list', hlist', hpath'⟩ := exists_source hwell hsources hother
  rw [hpath, hpath', RunOptions.place_schemaPath hplain _ (hlist.leadDown hwell),
    RunOptions.place_schemaPath hplain _ (hlist'.leadDown hwell)] at heq
  obtain rfl : list = list' := by simpa using heq
  exact eq_of_fst_eq hwell hsources h hother (hpath.trans hpath'.symm)

/-- A schema file holds its code when barrels are written. -/
theorem node?_of_made (hwell : cleaned.WellFormed) (hplain : options.inputDir.Plain)
    (hmade : Generated options (inputPaths options cleaned) cleaned made files generated)
    (h : source ∈ made) :
    generated.node? ((options.schemaPath source.1).place cleaned.current) =
      some (.file (.text source.2)) := by
  refine hmade.wrote.node? ⟨_, List.mem_map_of_mem h, rfl⟩ fun write hwrite hsame => ?_
  obtain ⟨other, hother, rfl⟩ := List.mem_map.1 hwrite
  rw [eq_of_place_schemaPath hwell hplain hmade.sources hother h hsame]

/-- Without a stem that is the name of the directory for schema files, barrels
are written for the code of the schema files. -/
theorem mem_made_of_mem_held (hwell : cleaned.WellFormed) (hplain : options.inputDir.Plain)
    (hstem : ∀ list, IsSource cleaned options.inputDir list → stemName list ≠ "types")
    (hmade : Generated options (inputPaths options cleaned) cleaned made files generated)
    (hheld : Barrel.Barrelled options (inputPaths options cleaned) generated held paths written)
    (h : source ∈ held) : source ∈ made := by
  have hcurrent := hmade.wrote.grows.current
  obtain ⟨list, hlist, heq⟩ := exists_source hwell hheld.sources h
  obtain ⟨code, hmem⟩ : ∃ code, (source.1, code) ∈ made := by
    have hinput : source.1 ∈ made.map Prod.fst :=
      hmade.sources.trans hheld.sources.symm ▸ List.mem_map_of_mem h
    obtain ⟨⟨path, code⟩, hmem, rfl⟩ := List.mem_map.1 hinput
    exact ⟨code, hmem⟩
  have htext := hheld.text source h fun input hinput kind => by
    -- no barrel lies where the schema file does
    obtain ⟨names, hnames, rfl⟩ := List.mem_map.1 hinput
    have hsource := isSource_of_mem_sources hwell hnames
    rw [heq, hcurrent, RunOptions.place_schemaPath hplain _ (hlist.leadDown hwell),
      RunOptions.place_barrelPath options _ (hsource.leadDown hwell)]
    exact fun hsame => hstem names hsource
      (eq_types_of_follow_eq (hlist.leadDown hwell).ne_nil hsame)
  rw [hcurrent, node?_of_made hwell hplain hmade hmem] at htext
  obtain rfl : code = source.2 := by simpa using htext
  exact hmem

end Texts

end InterfaceSchema
