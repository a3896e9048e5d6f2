import InterfaceSchema.Proofs.Run.History

/-!
# Output that survives its run

Schema files lie where their source files lie, so no two of them meet. Barrels
lie in directories for stems: they meet if their source files have the same
stem, and they meet schema files only if the stem is that of the directory for
schema files. Output that meets no other output is still there when the run
ends.
-/

namespace InterfaceSchema

open FileTree Disk

namespace RunOptions

/-- The text of a barrel of a source file with some code. -/
def barrelText (options : RunOptions) (input : Path) (code : Text) (kind : BarrelKind) : Text :=
  Barrel.render (kind.select (Barrel.exports code))
    (Specifier.ofPath (options.barrelDir input) (options.schemaPath input))

end RunOptions

/-- A text is at a place, perhaps with completed specifiers. -/
def StillHolds (options : RunOptions) (later : FileTree) (place : Place) (text : Text) : Prop :=
  ∃ final, later.node? place = some (.file (.text final)) ∧
    (final = text ∨ final = options.finished text)

/-- How the outputs of a run, as its summary lists them, meet and last. -/
structure KeepsOutput (options : RunOptions) (current : Place) (summary : RunSummary)
    (later : FileTree) : Prop where
  /-- The schema files that are listed. -/
  output : ∀ file ∈ summary.files, file.output = options.schemaPath file.input
  /-- The barrels that are listed. -/
  written : ∀ path ∈ summary.barrels.written, ∃ file ∈ summary.files, ∃ kind,
    path = options.barrelPath file.input kind
  /-- No two schema files meet. -/
  schemas : (summary.files.map fun file => file.output.place current).Nodup
  /-- Barrels that meet have the same stem and kind. -/
  barrels : ∀ first ∈ summary.files, ∀ second ∈ summary.files, ∀ kind kind',
    (options.barrelPath first.input kind).place current =
        (options.barrelPath second.input kind').place current →
      first.input.fileStem? = second.input.fileStem? ∧ kind = kind'
  /-- Barrels that meet a schema file have the stem of the directory for
  schema files. -/
  apart : ∀ first ∈ summary.files, ∀ second ∈ summary.files, ∀ kind,
    (options.barrelPath first.input kind).place current = second.output.place current →
      first.input.fileStem? = some "types".toList
  /-- Without this stem, schema files are still there, and so are the barrels
  whose stem belongs to one source file. -/
  kept : (∀ file ∈ summary.files, file.input.fileStem? ≠ some "types".toList) →
    ∀ file ∈ summary.files, ∃ source code, schemaFileFor options.target source = .ok code ∧
      StillHolds options later (file.output.place current) code ∧
      ((∀ other ∈ summary.files, other.input.fileStem? = file.input.fileStem? → other = file) →
        ∀ kind, options.barrelPath file.input kind ∈ summary.barrels.written →
          StillHolds options later ((options.barrelPath file.input kind).place current)
            (options.barrelText file.input code kind))

section Meeting

variable {options : RunOptions} {current : Place} {list list' : List Text}

/-- Barrels that meet have the same stem and kind. -/
theorem eq_of_place_barrelPath {kind kind' : BarrelKind} (hlist : LeadDown list)
    (hlist' : LeadDown list')
    (h : (options.barrelPath (sourcePath options.inputDir list) kind).place current =
      (options.barrelPath (sourcePath options.inputDir list') kind').place current) :
    stemName list = stemName list' ∧ kind = kind' := by
  rw [RunOptions.place_barrelPath options _ hlist,
    RunOptions.place_barrelPath options _ hlist'] at h
  obtain ⟨hdir, hfile⟩ := List.append_inj' h rfl
  have hbase : options.baseDir.place current ≠ [] := by
    rw [RunOptions.place_baseDir]
    simp
  refine ⟨eq_of_follow_eq hbase hdir, ?_⟩
  have hname : kind.fileName = kind'.fileName := by simpa using hfile
  revert hname
  cases kind <;> cases kind' <;> decide

/-- A barrel that meets a schema file has the stem of the directory for schema
files. -/
theorem eq_types_of_place_barrelPath {kind : BarrelKind} (hplain : options.inputDir.Plain)
    (hlist : LeadDown list) (hlist' : LeadDown list')
    (h : (options.barrelPath (sourcePath options.inputDir list) kind).place current =
      (options.schemaPath (sourcePath options.inputDir list')).place current) :
    stemName list = "types" := by
  rw [RunOptions.place_barrelPath options _ hlist,
    RunOptions.place_schemaPath hplain _ hlist'] at h
  exact eq_types_of_follow_eq hlist'.ne_nil h

end Meeting

section Lasting

variable {options : RunOptions} {tree later : FileTree} {place : Place} {text : Text}

/-- Completing specifiers leaves a text as it is, or finishes it. -/
theorem Finished.stillHolds (h : Finished options tree later)
    (hnode : tree.node? place = some (.file (.text text))) :
    StillHolds options later place text := by
  by_cases hbelow : ∃ list, IsSource tree options.baseDir list ∧
      options.baseDir.place tree.current ++ list = place
  · obtain ⟨list, hlist, rfl⟩ := hbelow
    exact ⟨_, h.text list text hlist.ending hnode, .inr rfl⟩
  · exact ⟨text, (h.grows.untouched place _ hbelow).2 hnode, .inl rfl⟩

end Lasting

section Listed

variable {options : RunOptions} {cleaned generated : FileTree} {made : List (Path × Text)}
  {files : List GeneratedFile} {input : Path} {file : GeneratedFile}
  (hwell : cleaned.WellFormed) (hplain : options.inputDir.Plain)
  (hmade : Generated options (inputPaths options cleaned) cleaned made files generated)

include hmade

/-- The listed files are all files that are treated. -/
theorem exists_file (h : input ∈ inputPaths options cleaned) : ∃ file ∈ files, file.input = input :=
  List.mem_map.1 (hmade.read ▸ h : input ∈ files.map GeneratedFile.input)

/-- The listed schema files are those of the source files. -/
theorem output_eq : ∀ file ∈ files, file.output = options.schemaPath file.input := by
  have hmap := hmade.outputs
  rw [← hmade.read, List.map_map] at hmap
  exact List.map_inj_left.1 hmap

include hwell

/-- The listed files are those of source files. -/
theorem exists_of_mem_files (h : file ∈ files) :
    ∃ list, LeadDown list ∧ IsSource cleaned options.inputDir list ∧
      file.input = sourcePath options.inputDir list := by
  have hinput : file.input ∈ inputPaths options cleaned := hmade.read ▸ List.mem_map_of_mem h
  obtain ⟨list, hlist, heq⟩ := List.mem_map.1 hinput
  have hsource := isSource_of_mem_sources hwell hlist
  exact ⟨list, hsource.leadDown hwell, hsource, heq.symm⟩

include hplain

/-- The listed schema files lie at different places. -/
theorem nodup_outputs : (files.map fun file => file.output.place cleaned.current).Nodup := by
  have hmap : (files.map fun file => file.output.place cleaned.current) =
      (inputPaths options cleaned).map fun input =>
        (options.schemaPath input).place cleaned.current := by
    have hplaces := congrArg (List.map fun path : Path => path.place cleaned.current) hmade.outputs
    rwa [List.map_map, List.map_map] at hplaces
  rw [hmap]
  refine (nodup_inputPaths hwell options).map_on fun first hfirst second hsecond heq => ?_
  obtain ⟨source, hsource, rfl⟩ := List.mem_map.1 (hmade.sources ▸ hfirst)
  obtain ⟨other, hother, rfl⟩ := List.mem_map.1 (hmade.sources ▸ hsecond)
  exact congrArg Prod.fst (eq_of_place_schemaPath hwell hplain hmade.sources hsource hother heq)

end Listed

section Saved

variable {options : RunOptions} {cleaned generated written later : FileTree}
  {made held : List (Path × Text)} {files : List GeneratedFile} {paths : List Path}
  {source write : Path × Text} {path : Path} {kind : BarrelKind}
  (hwell : cleaned.WellFormed) (hplain : options.inputDir.Plain)
  (hstem : ∀ list, IsSource cleaned options.inputDir list → stemName list ≠ "types")
  (hmade : Generated options (inputPaths options cleaned) cleaned made files generated)
  (hheld : Barrel.Barrelled options (inputPaths options cleaned) generated held paths written)

include hheld

/-- The listed barrels are those of the source files. -/
theorem exists_barrel (h : path ∈ paths) :
    ∃ source ∈ held, ∃ kind, path = options.barrelPath source.1 kind ∧
      (path, options.barrelText source.1 source.2 kind) ∈
        held.flatMap (Barrel.barrelWrites options) := by
  rw [hheld.written] at h
  obtain ⟨write, hwrite, rfl⟩ := List.mem_map.1 h
  obtain ⟨source, hsource, hmem⟩ := List.mem_flatMap.1 hwrite
  obtain ⟨kind, -, rfl⟩ := Barrel.mem_barrelWrites.1 hmem
  exact ⟨source, hsource, kind, rfl, hwrite⟩

include hwell

/-- What is saved as a barrel, and for which source file. -/
theorem exists_of_mem_barrels (h : write ∈ held.flatMap (Barrel.barrelWrites options)) :
    ∃ other ∈ held, ∃ list kind, LeadDown list ∧ IsSource cleaned options.inputDir list ∧
      other.1 = sourcePath options.inputDir list ∧
      write = (options.barrelPath other.1 kind, options.barrelText other.1 other.2 kind) := by
  obtain ⟨other, hother, hmem⟩ := List.mem_flatMap.1 h
  obtain ⟨kind, -, rfl⟩ := Barrel.mem_barrelWrites.1 hmem
  obtain ⟨list, hlist, heq⟩ := exists_source hwell hheld.sources hother
  exact ⟨other, hother, list, kind, hlist.leadDown hwell, hlist, heq, rfl⟩

include hmade

/-- A barrel whose stem belongs to one source file outlasts the writing of
other barrels. -/
theorem node?_barrel (hsource : source ∈ held)
    (hunique : ∀ other ∈ held, other.1.fileStem? = source.1.fileStem? → other = source)
    (h : (options.barrelPath source.1 kind, options.barrelText source.1 source.2 kind) ∈
      held.flatMap (Barrel.barrelWrites options)) :
    written.node? ((options.barrelPath source.1 kind).place cleaned.current) =
      some (.file (.text (options.barrelText source.1 source.2 kind))) := by
  have hcurrent := hmade.wrote.grows.current
  refine hheld.wrote.node? ⟨_, h, by rw [hcurrent]⟩ fun write hwrite hplace => ?_
  obtain ⟨list, hlist, heq⟩ := exists_source hwell hheld.sources hsource
  obtain ⟨other, hother, list', kind', hdown, -, heq', rfl⟩ :=
    exists_of_mem_barrels hwell hheld hwrite
  dsimp only at hplace ⊢
  rw [hcurrent, heq, heq'] at hplace
  obtain ⟨hstem, rfl⟩ := eq_of_place_barrelPath hdown (hlist.leadDown hwell) hplace
  rw [hunique other hother (by rw [heq, heq', fileStem?_eq_stemName _ hdown,
    fileStem?_eq_stemName _ (hlist.leadDown hwell), hstem])]

include hplain hstem

/-- Without the stem of the directory for schema files, schema files outlast
the writing of barrels. -/
theorem node?_schema (h : source ∈ made) :
    written.node? ((options.schemaPath source.1).place cleaned.current) =
      some (.file (.text source.2)) := by
  refine (hheld.wrote.grows.untouched _ _ ?_).2 (node?_of_made hwell hplain hmade h)
  rintro ⟨write, hwrite, hplace⟩
  obtain ⟨list, hlist, heq⟩ := exists_source hwell hmade.sources h
  obtain ⟨other, -, list', kind, hdown, hsource, heq', rfl⟩ :=
    exists_of_mem_barrels hwell hheld hwrite
  dsimp only at hplace
  rw [hmade.wrote.grows.current, heq, heq'] at hplace
  exact hstem list' hsource
    (eq_types_of_place_barrelPath hplain hdown (hlist.leadDown hwell) hplace)

/-- A listed barrel whose stem belongs to one source file is still there. -/
theorem stillHolds_barrel (hfinished : Finished options written later) (hsource : source ∈ made)
    (hunique : ∀ other ∈ files, other.input.fileStem? = source.1.fileStem? →
      other.input = source.1)
    (hkind : options.barrelPath source.1 kind ∈ paths) :
    StillHolds options later ((options.barrelPath source.1 kind).place cleaned.current)
      (options.barrelText source.1 source.2 kind) := by
  -- nothing but this source file has written barrels for its stem
  have hsame : ∀ other ∈ held, other.1.fileStem? = source.1.fileStem? → other = source := by
    intro other hother heq
    obtain ⟨file, hfile, hpath⟩ := exists_file hmade (hheld.sources ▸ List.mem_map_of_mem hother)
    have hfst := hunique file hfile (by rw [hpath, heq])
    have hmem := mem_made_of_mem_held hwell hplain hstem hmade hheld hother
    exact eq_of_fst_eq hwell hmade.sources hmem hsource (hpath.symm.trans hfst)
  obtain ⟨other, hother, kind', hpath, hmem⟩ := exists_barrel hheld hkind
  obtain ⟨list, hlist, heq⟩ := exists_source hwell hmade.sources hsource
  obtain ⟨list', hlist', heq'⟩ := exists_source hwell hheld.sources hother
  have hdown := hlist.leadDown hwell
  have hdown' := hlist'.leadDown hwell
  have hplace := congrArg (fun path : Path => path.place cleaned.current) hpath
  rw [heq, heq'] at hplace
  obtain ⟨hstems, rfl⟩ := eq_of_place_barrelPath hdown hdown' hplace
  obtain rfl := hsame other hother (by
    rw [heq, heq', fileStem?_eq_stemName _ hdown, fileStem?_eq_stemName _ hdown', hstems])
  exact hfinished.stillHolds (node?_barrel hwell hmade hheld hother hsame hmem)

end Saved

section Whole

variable {options : RunOptions} {tree later : FileTree} {summary : RunSummary}

/-- A tree with two source files of the same stem, in different directories,
and one with a stem of its own. -/
def sharedTree : FileTree where
  nodes := [
    (["src"], .directory),
    (["src", "b.ts"], .file (.text "export interface C \x7b d: string \x7d")),
    (["src", "x"], .directory),
    (["src", "x", "a.ts"], .file (.text "export interface A \x7b b: string \x7d")),
    (["src", "y"], .directory),
    (["src", "y", "a.ts"], .file (.text "export interface B \x7b b: string \x7d"))]
  current := []

/-- The options of a run on this tree. -/
def sharedOptions : RunOptions where
  target := .types
  inputDir := ⟨"src"⟩
  outputDir := ⟨"out"⟩
  clean := true
  fixImports := true

/-- The schema files that the run lists. -/
def sharedFiles : List GeneratedFile := [
  ⟨⟨"src/b.ts"⟩, ⟨"out/types/types/b.ts"⟩, .written⟩,
  ⟨⟨"src/x/a.ts"⟩, ⟨"out/types/types/x/a.ts"⟩, .written⟩,
  ⟨⟨"src/y/a.ts"⟩, ⟨"out/types/types/y/a.ts"⟩, .written⟩]

/-- The run ends, and lists the barrel of the shared stem twice. -/
theorem ran_shared :
    ∃ summary, Ran (Run.run sharedOptions) sharedTree summary
        (outcome sharedOptions sharedTree).2 ∧
      (summary.files, summary.barrels.written) = (sharedFiles,
        [⟨"out/types/b/index.ts"⟩, ⟨"out/types/a/index.ts"⟩, ⟨"out/types/a/index.ts"⟩]) :=
  ran_of_outcome (by decide +kernel)

end Whole

end InterfaceSchema
