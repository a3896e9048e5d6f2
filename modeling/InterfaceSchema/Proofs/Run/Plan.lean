import InterfaceSchema.Proofs.Run.Paths
import InterfaceSchema.Proofs.Specifier.Completion

/-!
# What a run will write

The files that a run saves and their texts follow from its source files and the
code for them. Barrels are read off what was saved last in the place of a
schema file, which may be a barrel. What a file holds at the end follows from
the texts that were saved, and from what it held when output was cleaned.
-/

namespace InterfaceSchema

open FileTree Disk

/-- The code for a source file, or why there is none. -/
def codeOf (options : RunOptions) (tree : FileTree) (input : Path) : Except RunError Text :=
  match tree.readText input with
  | .error cause => .error (.disk ⟨[.reading input], cause⟩)
  | .ok source =>
    match schemaFileFor options.target source with
    | .error error =>
      .error (.generate options.target input (relativeInput input options.inputDir).text error)
    | .ok code => .ok code

/-- The schema files with their code. -/
def schemaWrites (options : RunOptions) (made : List (Path × Text)) : List (Path × Text) :=
  made.map fun source => (options.schemaPath source.1, source.2)

/-- The files that are saved after some were saved, for some source files: the
barrels of what was saved last in the places of their schema files. -/
def barrelLog (options : RunOptions) (current : Place) :
    List Path → List (Path × Text) → List (Path × Text)
  | [], log => log
  | input :: rest, log =>
    let text := (lastText? current log ((options.schemaPath input).place current)).getD []
    barrelLog options current rest (log ++ Barrel.barrelWrites options (input, text))

/-- The files that a run saves, in order. -/
def plan (options : RunOptions) (current : Place) (made : List (Path × Text)) :
    List (Path × Text) :=
  barrelLog options current (made.map Prod.fst) (schemaWrites options made)

/-- Source files with the code for each of them. -/
structure Reads (options : RunOptions) (tree : FileTree) (made : List (Path × Text)) : Prop where
  sources : made.map Prod.fst = inputPaths options tree
  code : ∀ source ∈ made, codeOf options tree source.1 = .ok source.2

/-- What a file holds at the end, if it is among those that are completed. -/
def RunOptions.final (options : RunOptions) (current place : Place) : Content → Content
  | .bytes bytes => .bytes bytes
  | .text text =>
    if options.baseDir.place current <+: place ∧
        endsAsSource (place.drop (options.baseDir.place current).length) then
      .text (options.finished text)
    else .text text

/-- Completing specifiers changes files in one way, and finds texts in all of
them. -/
structure Completes (options : RunOptions) (tree later : FileTree) : Prop where
  grows : Grows (fun place => ∃ list, IsSource tree options.baseDir list ∧
    options.baseDir.place tree.current ++ list = place) tree later
  node? : ∀ place content, later.node? place = some (.file content) ↔
    ∃ held, tree.node? place = some (.file held) ∧
      content = options.final tree.current place held
  text : options.fixImports = true → ∀ list content, endsAsSource list = true →
    tree.node? (options.baseDir.place tree.current ++ list) = some (.file content) →
      ∃ text, content = .text text

/-- What a run with source files leaves behind. -/
structure Produced (options : RunOptions) (cleaned : FileTree) (made : List (Path × Text))
    (written later : FileTree) : Prop where
  reads : Reads options cleaned made
  wrote : Wrote cleaned (plan options cleaned.current made) written
  completes : Completes options written later

section Plan

variable {options : RunOptions} {current : Place} {inputs : List Path}
  {made log : List (Path × Text)} {write : Path × Text}

/-- What was saved before the barrels is saved first. -/
theorem prefix_barrelLog (options : RunOptions) (current : Place) (inputs : List Path)
    (log : List (Path × Text)) : log <+: barrelLog options current inputs log := by
  induction inputs generalizing log with
  | nil => exact List.prefix_rfl
  | cons input rest ih => exact (List.prefix_append _ _).trans (ih _)

/-- What is saved after some files are barrels. -/
theorem mem_barrelLog (h : write ∈ barrelLog options current inputs log) :
    write ∈ log ∨ ∃ input ∈ inputs, ∃ kind, write.1 = options.barrelPath input kind := by
  induction inputs generalizing log with
  | nil => exact .inl h
  | cons input rest ih =>
    rcases ih h with hlog | ⟨other, hother, kind, hpath⟩
    · rcases List.mem_append.1 hlog with hlog | hbarrel
      · exact .inl hlog
      · obtain ⟨kind, -, rfl⟩ := Barrel.mem_barrelWrites.1 hbarrel
        exact .inr ⟨input, List.mem_cons_self, kind, rfl⟩
    · exact .inr ⟨other, List.mem_cons_of_mem _ hother, kind, hpath⟩

/-- What a run saves is output. -/
theorem exists_output_of_mem_plan {tree : FileTree} (htree : tree.WellFormed)
    (hsources : made.map Prod.fst = inputPaths options tree)
    (h : write ∈ plan options current made) :
    ∃ list, IsSource tree options.inputDir list ∧ IsOutputPath options list write.1 := by
  have hsource : ∀ input ∈ made.map Prod.fst, ∃ list, IsSource tree options.inputDir list ∧
      input = sourcePath options.inputDir list := by
    intro input hinput
    obtain ⟨source, hmem, rfl⟩ := List.mem_map.1 hinput
    exact exists_source htree hsources hmem
  rcases mem_barrelLog h with hschema | ⟨input, hinput, kind, hpath⟩
  · obtain ⟨source, hmem, rfl⟩ := List.mem_map.1 hschema
    obtain ⟨list, hlist, heq⟩ := hsource source.1 (List.mem_map_of_mem hmem)
    refine ⟨list, hlist, ?_⟩
    dsimp only
    rw [heq]
    exact .schema
  · obtain ⟨list, hlist, rfl⟩ := hsource input hinput
    refine ⟨list, hlist, ?_⟩
    rw [hpath]
    exact .barrel kind

end Plan

section Final

variable {options : RunOptions} {current place : Place} {content : Content}

/-- What is final stays as it is. -/
theorem final_final : options.final current place (options.final current place content) =
    options.final current place content := by
  cases content with
  | bytes bytes => rfl
  | text text =>
    rw [RunOptions.final]
    split
    · next hcompleted =>
      rw [RunOptions.final, if_pos hcompleted, RunOptions.finished, RunOptions.finished]
      split
      · rw [Specifier.getD_complete?_getD]
      · rfl
    · next hleft => rw [RunOptions.final, if_neg hleft]

/-- Without completing specifiers nothing changes. -/
theorem final_of_not_fixImports (h : options.fixImports = false) :
    options.final current place content = content := by
  cases content with
  | bytes bytes => rfl
  | text text =>
    rw [RunOptions.final]
    split
    · rw [RunOptions.finished, if_neg (by simp [h])]
    · rfl

end Final

section Codes

variable {options : RunOptions} {tree later : FileTree} {input : Path} {code : Text}
  {first second : Place} {content : Content}

/-- A source file has code if it holds a text that has. -/
theorem codeOf_ok_iff : codeOf options tree input = .ok code ↔
    ∃ source, tree.readText input = .ok source ∧ schemaFileFor options.target source = .ok code := by
  rw [codeOf]
  rcases tree.readText input with cause | source
  · simp
  · dsimp only
    rcases hcode : schemaFileFor options.target source with error | other <;> simp [hcode]

/-- Code depends on what a source file holds. -/
theorem codeOf_congr (h : tree.find input = .ok (first, .file content))
    (hlater : later.find input = .ok (second, .file content)) :
    codeOf options later input = codeOf options tree input := by
  have hread : later.readText input = tree.readText input := by
    rw [FileTree.readText, FileTree.readText, FileTree.read, FileTree.read, h, hlater]
    rfl
  rw [codeOf, codeOf, hread]

end Codes

section Sources

variable {options : RunOptions} {cleaned generated : FileTree} {list : List Text}
  {made : List (Path × Text)} {inputs : List Path} {files : List GeneratedFile}
  (hcleaned : cleaned.WellFormed)
  (hpaved : cleaned.Paved (options.inputDir.searched.place cleaned.current))

include hcleaned hpaved

/-- A source file that is listed is found. -/
theorem find_of_mem_inputs (h : list ∈ sources cleaned options.inputDir) :
    ∃ content, cleaned.find (sourcePath options.inputDir list) =
      .ok (options.inputDir.searched.place cleaned.current ++ list, .file content) := by
  obtain ⟨place, hfind⟩ := find_of_mem_sources h
  obtain rfl := find_directory hfind
  have hsource := isSource_of_mem_sources hcleaned h
  obtain ⟨content, hnode⟩ := hsource.file
  exact ⟨content, find_sourcePath hfind hpaved (hsource.leadDown hcleaned) hnode⟩

/-- The code that schema files hold is that of their source files, since these
lie apart. -/
theorem code_of_generated (hseparate : Separate options cleaned.current)
    (hmade : Generated options inputs cleaned made files generated)
    (hinputs : inputs ⊆ inputPaths options cleaned) :
    ∀ source ∈ made, codeOf options cleaned source.1 = .ok source.2 := by
  intro source hsource
  have hinput : source.1 ∈ inputs := hmade.sources ▸ List.mem_map_of_mem hsource
  obtain ⟨list, hlist, heq⟩ := List.mem_map.1 (hinputs hinput)
  have hdown := (isSource_of_mem_sources hcleaned hlist).leadDown hcleaned
  have hplace := place_sourcePath cleaned.current options.inputDir hdown
  obtain ⟨content, hfind⟩ := find_of_mem_inputs hcleaned hpaved hlist
  obtain ⟨text, hcode, hnode⟩ := hmade.code source hsource
  rw [← heq, hplace] at hnode
  have hheld := hnode fun other hother => by
    obtain ⟨names, hnames, rfl⟩ := List.mem_map.1 (hinputs hother)
    have hdownNames := (isSource_of_mem_sources hcleaned hnames).leadDown hcleaned
    rw [RunOptions.place_schemaPath_seen hseparate.ne_nil _ hdownNames]
    exact fun hsame => hseparate.not_prefix list (hsame ▸ List.prefix_append _ _)
  rw [(find_file hfind).2] at hheld
  obtain rfl : content = .text text := by simpa using hheld
  refine codeOf_ok_iff.2 ⟨text, ?_, hcode⟩
  rw [← heq, FileTree.readText, FileTree.read, hfind]
  rfl

end Sources

section Again

variable {options : RunOptions} {cleaned again : FileTree} {made : List (Path × Text)}

/-- If there is code, there are source files. -/
theorem Reads.sources_ne_nil (h : Reads options cleaned made) (hmade : made ≠ []) :
    Disk.sources cleaned options.inputDir ≠ [] := by
  intro hnil
  have hsources := h.sources
  rw [inputPaths, hnil, List.map_nil, List.map_eq_nil_iff] at hsources
  exact hmade hsources

/-- Where an input directory holds the same files, the same source files have
the same code. -/
theorem Reads.of_files (h : Reads options cleaned made)
    (hcleaned : cleaned.WellFormed) (hagain : again.WellFormed)
    (hcurrent : again.current = cleaned.current)
    (hpaved : cleaned.Paved (options.inputDir.searched.place cleaned.current))
    (hfind : cleaned.find options.inputDir.searched =
      .ok (options.inputDir.searched.place cleaned.current, .directory))
    (hfindAgain : again.find options.inputDir.searched =
      .ok (options.inputDir.searched.place cleaned.current, .directory))
    (hpavedAgain : again.Paved (options.inputDir.searched.place cleaned.current))
    (hfile : ∀ list content,
      again.node? (options.inputDir.searched.place cleaned.current ++ list) =
          some (.file content) ↔
        cleaned.node? (options.inputDir.searched.place cleaned.current ++ list) =
          some (.file content)) : Reads options again made := by
  have hsources : Disk.sources again options.inputDir = Disk.sources cleaned options.inputDir := by
    refine hcleaned.sources_eq hagain fun list => ?_
    rw [mem_sources hagain ⟨_, hfindAgain⟩, mem_sources hcleaned ⟨_, hfind⟩]
    have hfiles : (∃ content, again.node?
          (options.inputDir.searched.place again.current ++ list) = some (.file content)) ↔
        ∃ content, cleaned.node?
          (options.inputDir.searched.place cleaned.current ++ list) = some (.file content) := by
      rw [hcurrent]
      exact exists_congr fun content => hfile list content
    exact ⟨fun hsource => ⟨hfiles.1 hsource.file, hsource.ending⟩,
      fun hsource => ⟨hfiles.2 hsource.file, hsource.ending⟩⟩
  refine ⟨by rw [h.sources, inputPaths, inputPaths, hsources], fun source hsource => ?_⟩
  have hinput : source.1 ∈ inputPaths options cleaned := h.sources ▸ List.mem_map_of_mem hsource
  obtain ⟨list, hlist, heq⟩ := List.mem_map.1 hinput
  obtain ⟨content, hfound⟩ := find_of_mem_inputs hcleaned hpaved hlist
  have hdown := (isSource_of_mem_sources hcleaned hlist).leadDown hcleaned
  have hfoundAgain := find_sourcePath hfindAgain hpavedAgain hdown
    ((hfile list content).2 (find_file hfound).2)
  have hcode := h.code source hsource
  rw [← heq] at hcode ⊢
  rw [codeOf_congr hfound hfoundAgain, hcode]

end Again

section History

variable {options : RunOptions} {tree cleaned written later : FileTree}
  {log : List (Path × Text)} {inputs : List Path} {summary : BarrelSummary}

/-- The barrels for a source file are read off what was saved before. -/
theorem writeFor_log {input : Path} (hstem : input.fileStem?.isSome)
    (hlog : ∃ text, (options.schemaPath input, text) ∈ log) (hwrote : Wrote cleaned log tree)
    (h : Ran (Barrel.writeFor options.baseDir options.schemaDir options.inputDir input)
      tree summary later) :
    Wrote cleaned (barrelLog options cleaned.current [input] log) later := by
  have hcurrent := hwrote.grows.current
  obtain ⟨text, hlast, hread⟩ := hwrote.readText hlog
  have hfind := readText_ok hread
  obtain ⟨content, hnode, hbarrels, -⟩ := Barrel.writeFor_ok hstem ⟨_, hfind⟩ h
  rw [(find_file hfind).2] at hnode
  obtain rfl : text = content := by simpa using hnode
  rw [barrelLog, hlast]
  exact hwrote.append hbarrels

/-- Barrels are read off what was saved before. -/
theorem writeAll_log (hstem : ∀ input ∈ inputs, input.fileStem?.isSome)
    (hlog : ∀ input ∈ inputs, ∃ text, (options.schemaPath input, text) ∈ log)
    (hwrote : Wrote cleaned log tree)
    (h : Ran (Barrel.writeAll options.baseDir options.schemaDir options.inputDir inputs)
      tree summary later) :
    Wrote cleaned (barrelLog options cleaned.current inputs log) later := by
  induction inputs generalizing log tree summary with
  | nil =>
    obtain ⟨-, rfl⟩ := ran_pure.1 h
    exact hwrote
  | cons input rest ih =>
    rw [Barrel.writeAll] at h
    obtain ⟨first, middle, hfirst, hrest⟩ := ran_bind.1 h
    obtain ⟨others, last, hothers, hdone⟩ := ran_bind.1 hrest
    obtain ⟨-, rfl⟩ := ran_pure.1 hdone
    have hmiddle := writeFor_log (hstem input List.mem_cons_self) (hlog input List.mem_cons_self)
      hwrote hfirst
    refine ih (fun other hother => hstem other (List.mem_cons_of_mem _ hother))
      (fun other hother => ?_) hmiddle hothers
    obtain ⟨text, hmem⟩ := hlog other (List.mem_cons_of_mem _ hother)
    exact ⟨text, (prefix_barrelLog options cleaned.current [input] log).subset hmem⟩

/-- Completing the specifiers in files finds texts in all of them. -/
theorem text_of_completeFiles {paths fixed : List Path} {path : Path}
    (h : Ran (Specifier.completeFiles paths) tree fixed later) (hpath : path ∈ paths) :
    ∃ text, tree.node? (path.place tree.current) = some (.file (.text text)) := by
  induction paths generalizing tree fixed with
  | nil => cases hpath
  | cons first rest ih =>
    obtain ⟨content, next, others, htext, hsaved, hothers⟩ := Specifier.completeFiles_cons_ok h
    have hfirst := (find_file (readText_ok htext)).2
    by_cases hsame : path.place tree.current = first.place tree.current
    · exact ⟨content, hsame ▸ hfirst⟩
    · have hmem : path ∈ rest := (List.mem_cons.1 hpath).resolve_left fun heq =>
        hsame (by rw [heq])
      obtain ⟨text, hnode⟩ := ih hothers hmem
      rw [hsaved.grows.current] at hnode
      exact ⟨text, (hsaved.grows.untouched _ _ hsame).1 hnode⟩

/-- Where no source file below the base directory lies, what is there is
final. -/
theorem final_of_not_source {place : Place} {held : Content}
    (hsource : ¬∃ list, IsSource tree options.baseDir list ∧
      options.baseDir.place tree.current ++ list = place)
    (hnode : tree.node? place = some (.file held)) :
    options.final tree.current place held = held := by
  cases held with
  | bytes bytes => rfl
  | text text =>
    refine if_neg ?_
    rintro ⟨⟨list, rfl⟩, hending⟩
    rw [List.drop_left] at hending
    refine hsource ⟨list, ⟨⟨.text text, ?_⟩, hending⟩, rfl⟩
    rw [searched_eq_self options.baseDir_text]
    exact hnode

/-- Completing specifiers, if this should be done, leaves final files
behind. -/
theorem completeOutput_completes {imports : Option ImportSummary} (htree : tree.WellFormed)
    (hfind : ∃ place, tree.find options.baseDir = .ok (place, .directory))
    (h : Ran (Run.completeOutput options) tree imports later) : Completes options tree later := by
  have hfinished := completeOutput_ok htree hfind h
  have hsearched := searched_eq_self options.baseDir_text
  rw [Run.completeOutput] at h
  cases hfix : options.fixImports with
  | false =>
    rw [if_neg (by simp [hfix])] at h
    obtain ⟨-, rfl⟩ := ran_pure.1 h
    refine ⟨.refl _ _, fun place content => ?_, fun htrue => absurd htrue (by simp [hfix])⟩
    simp [final_of_not_fixImports hfix]
  | true =>
    rw [if_pos hfix] at h
    obtain ⟨summary, middle, hbelow, -⟩ := ran_bind.1 h
    obtain ⟨paths, last, hpaths, hrest⟩ := ran_bind.1 (ran_within.1 (ran_onDisk.1 hbelow))
    obtain ⟨rfl, rfl⟩ := sourceFiles_ok hpaths
    obtain ⟨fixed, _, hfiles, -⟩ := ran_bind.1 hrest
    have htext : ∀ list content, endsAsSource list = true →
        last.node? (options.baseDir.place last.current ++ list) = some (.file content) →
          ∃ text, content = .text text := by
      intro list content hending hnode
      have hsource : IsSource last options.baseDir list :=
        ⟨⟨content, hsearched.symm ▸ hnode⟩, hending⟩
      have hmem := (mem_sources htree (hsearched.symm ▸ hfind)).2 hsource
      obtain ⟨text, hheld⟩ := text_of_completeFiles hfiles (List.mem_map_of_mem hmem)
      rw [place_sourcePath _ _ (hsource.leadDown htree), hsearched, hnode] at hheld
      exact ⟨text, by simpa using hheld⟩
    refine ⟨hfinished.grows, fun place content => ?_, fun _ => htext⟩
    by_cases hsource : ∃ list, IsSource last options.baseDir list ∧
        options.baseDir.place last.current ++ list = place
    · obtain ⟨list, hlist, rfl⟩ := hsource
      obtain ⟨held, hheld⟩ := hlist.file
      rw [hsearched] at hheld
      obtain ⟨text, rfl⟩ := htext list held hlist.ending hheld
      have hfinal : options.final last.current (options.baseDir.place last.current ++ list)
          (.text text) = .text (options.finished text) :=
        if_pos ⟨List.prefix_append _ _, by rw [List.drop_left]; exact hlist.ending⟩
      rw [hfinished.text list text hlist.ending hheld, hheld]
      simp [hfinal, eq_comm]
    · rw [hfinished.grows.untouched place content hsource]
      constructor
      · intro hnode
        exact ⟨content, hnode, (final_of_not_source hsource hnode).symm⟩
      · rintro ⟨held, hnode, rfl⟩
        rwa [final_of_not_source hsource hnode]

/-- Every source file has a stem. -/
theorem isSome_fileStem? {input : Path} (htree : cleaned.WellFormed)
    (h : input ∈ inputPaths options cleaned) : input.fileStem?.isSome := by
  obtain ⟨list, hlist, rfl⟩ := List.mem_map.1 h
  rw [fileStem?_eq_stemName _ ((isSource_of_mem_sources htree hlist).leadDown htree)]
  rfl

/-- The base directory is there once everything is written. -/
theorem find_baseDir_of_wrote {made : List (Path × Text)} (htree : cleaned.WellFormed)
    (hne : options.inputDir.text ≠ []) (hmade : made ≠ [])
    (hsources : made.map Prod.fst = inputPaths options cleaned)
    (hwrote : Wrote cleaned (plan options cleaned.current made) written) :
    written.find options.baseDir =
      .ok (options.baseDir.place written.current, .directory) := by
  obtain ⟨source, hsource⟩ := List.exists_mem_of_ne_nil _ hmade
  obtain ⟨list, hlist, heq⟩ := exists_source htree hsources hsource
  have hmem : (options.schemaPath source.1, source.2) ∈ plan options cleaned.current made :=
    (prefix_barrelLog _ _ _ _).subset (List.mem_map.2 ⟨source, hsource, rfl⟩)
  obtain ⟨content, hfind⟩ := hwrote.find hmem
  rw [heq] at hfind
  exact IsOutputPath.schema.find_baseDir hne (hlist.leadDown htree) hfind

/-- Generating all output for source files that lie apart leaves behind what
should be written. -/
theorem generateAll_produced {summary : RunSummary} (htree : cleaned.WellFormed)
    (hpaved : cleaned.Paved (options.inputDir.searched.place cleaned.current))
    (hseparate : Separate options cleaned.current) (hne : inputPaths options cleaned ≠ [])
    (h : Ran (Run.generateAll options (inputPaths options cleaned)) cleaned summary later) :
    ∃ made written, made ≠ [] ∧ Produced options cleaned made written later := by
  obtain ⟨files, generated, barrels, written, imports, hfiles, hbarrels, hcomplete, -⟩ :=
    ran_generateAll.1 h
  obtain ⟨made, hmade⟩ := generateFiles_ok hfiles
  have hlog : ∀ input ∈ inputPaths options cleaned,
      ∃ text, (options.schemaPath input, text) ∈ schemaWrites options made := by
    intro input hinput
    rw [← hmade.sources] at hinput
    obtain ⟨source, hsource, rfl⟩ := List.mem_map.1 hinput
    exact ⟨source.2, List.mem_map.2 ⟨source, hsource, rfl⟩⟩
  have hwrote : Wrote cleaned (plan options cleaned.current made) written := by
    rw [plan, hmade.sources]
    exact writeAll_log (fun input hinput => isSome_fileStem? htree hinput) hlog hmade.wrote hbarrels
  have hsome : made ≠ [] := fun hnil => hne (by rw [← hmade.sources, hnil, List.map_nil])
  have hbase := find_baseDir_of_wrote htree hseparate.ne_nil hsome hmade.sources hwrote
  have hcode := code_of_generated htree hpaved hseparate hmade (List.Subset.refl _)
  exact ⟨made, written, hsome, ⟨hmade.sources, hcode⟩, hwrote,
    completeOutput_completes (hwrote.grows.wellFormed htree) ⟨_, hbase⟩ hcomplete⟩

/-- Cleaning removes the base directory, if it was found or nothing was
there. -/
theorem node?_cleaned (hclean : Ran (Run.cleanOutput options) tree () cleaned)
    (hmeets : options.clean = true → tree.Meets options.baseDir) (place : Place) :
    cleaned.node? place =
      if options.clean = true ∧ options.baseDir.place tree.current <+: place then none
        else tree.node? place := by
  rw [cleanOutput_ok hclean]
  by_cases hset : options.clean = true
  · by_cases hfound : (tree.find options.baseDir).toBool = true
    · have hroot : options.baseDir.place tree.current <+: place → place ≠ [] := by
        rintro ⟨below, rfl⟩
        rw [RunOptions.place_baseDir]
        simp
      rw [if_pos ⟨hset, hfound⟩, node?_remove]
      by_cases hbelow : options.baseDir.place tree.current <+: place
      · rw [if_pos ⟨hbelow, hroot hbelow⟩, if_pos ⟨hset, hbelow⟩]
      · rw [if_neg fun hboth => hbelow hboth.1, if_neg fun hboth => hbelow hboth.2]
    · rw [if_neg fun hboth => hfound hboth.2]
      split
      · next hbelow =>
        obtain ⟨below, rfl⟩ := hbelow.2
        exact (hmeets hset).resolve_left hfound below
      · rfl
  · rw [if_neg fun hboth => hset hboth.1, if_neg fun hboth => hset hboth.1]

/-- Cleaning leaves everything else in its directories. -/
theorem rooted_of_cleanOutput (hrooted : tree.Rooted)
    (h : Ran (Run.cleanOutput options) tree () cleaned) : cleaned.Rooted := by
  rw [cleanOutput_ok h]
  split
  · exact hrooted.remove _
  · exact hrooted

/-- A run that succeeds leaves behind what it has cleaned, if there are no
source files, and otherwise what it should write. -/
theorem run_history_of_paved {summary : RunSummary} (htree : tree.WellFormed)
    (hpaved : ∀ cleaned, Ran (Run.cleanOutput options) tree () cleaned →
      cleaned.Paved (options.inputDir.searched.place cleaned.current))
    (hseparate : Separate options tree.current)
    (h : Ran (Run.run options) tree summary later) :
    ∃ cleaned, Ran (Run.cleanOutput options) tree () cleaned ∧
      (sources cleaned options.inputDir = [] ∧ later = cleaned ∨
        ∃ made written, made ≠ [] ∧ Produced options cleaned made written later) := by
  obtain ⟨cleaned, hclean, hrest⟩ := ran_run.1 h
  have hkept := cleanOutput_cleaned hclean
  refine ⟨cleaned, hclean, ?_⟩
  rcases hrest with ⟨hnone, -, rfl⟩ | ⟨hsome, hall⟩
  · exact .inl ⟨hnone, rfl⟩
  · exact .inr (generateAll_produced (hkept.wellFormed htree) (hpaved cleaned hclean)
      (hkept.current ▸ hseparate) (by simpa [inputPaths] using hsome) hall)

/-- A run that succeeds on a tree in which everything stands in directories. -/
theorem run_history {summary : RunSummary} (htree : tree.WellFormed) (hrooted : tree.Rooted)
    (hseparate : Separate options tree.current)
    (h : Ran (Run.run options) tree summary later) :
    ∃ cleaned, Ran (Run.cleanOutput options) tree () cleaned ∧
      (sources cleaned options.inputDir = [] ∧ later = cleaned ∨
        ∃ made written, made ≠ [] ∧ Produced options cleaned made written later) :=
  run_history_of_paved htree (fun _ hclean => (rooted_of_cleanOutput hrooted hclean).paved _)
    hseparate h

end History

namespace Produced

variable {options : RunOptions} {cleaned written later : FileTree} {made : List (Path × Text)}
  {place : Place} {content : Content} {write : Path × Text}

/-- Nothing has changed but what was planned and what lies below the base
directory. -/
theorem grows (h : Produced options cleaned made written later) :
    Grows (fun place => (∃ write ∈ plan options cleaned.current made,
      write.1.place cleaned.current = place) ∨ options.baseDir.place cleaned.current <+: place)
      cleaned later := by
  refine (h.wrote.grows.mono fun place hplace => .inl hplace).trans
    (h.completes.grows.mono ?_)
  rintro place ⟨list, -, rfl⟩
  rw [h.wrote.grows.current]
  exact .inr (List.prefix_append _ _)

/-- What a file holds follows from what was planned and from what it held. -/
theorem node?_eq_iff (h : Produced options cleaned made written later) :
    later.node? place = some (.file content) ↔ ∃ held,
      (match lastText? cleaned.current (plan options cleaned.current made) place with
        | some text => held = .text text
        | none => cleaned.node? place = some (.file held)) ∧
      content = options.final cleaned.current place held := by
  rw [h.completes.node?, h.wrote.grows.current]
  exact exists_congr fun held => and_congr_left' h.wrote.node?_eq_iff

/-- What is completed without being planned holds a text. -/
theorem exists_text (h : Produced options cleaned made written later) {list : List Text}
    (hfix : options.fixImports = true) (hending : endsAsSource list = true)
    (hlast : lastText? cleaned.current (plan options cleaned.current made)
      (options.baseDir.place cleaned.current ++ list) = none)
    (hnode : cleaned.node? (options.baseDir.place cleaned.current ++ list) = some (.file content)) :
    ∃ text, content = .text text := by
  have hwritten : written.node? (options.baseDir.place cleaned.current ++ list) =
      some (.file content) ↔ _ := h.wrote.node?_eq_iff
  rw [hlast] at hwritten
  refine h.completes.text hfix list content hending ?_
  rw [h.wrote.grows.current]
  exact hwritten.2 hnode

/-- What was planned is found. -/
theorem find (h : Produced options cleaned made written later)
    (hwrite : write ∈ plan options cleaned.current made) :
    ∃ content, later.find write.1 = .ok (write.1.place cleaned.current, .file content) := by
  obtain ⟨content, hfind⟩ := h.wrote.find hwrite
  obtain ⟨held, hheld⟩ := h.completes.grows.file _ content (find_file hfind).2
  exact ⟨held, h.completes.grows.find_file hfind hheld⟩

end Produced

end InterfaceSchema
