import InterfaceSchema.Proofs.Run.History

/-!
# What a run leaves below its base directory

A run that cleans leaves exactly its own output below the base directory: a
schema file for every source file, and the barrels of the names that this
exports. This takes input and output directories that lie apart and stems that
keep the barrels of different source files apart; it also takes an input
directory that is spelled without a leading single dot, because nested source
files are not seen as lying below it otherwise.
-/

namespace InterfaceSchema

open FileTree Disk

/-- The code that the text of a source file gives. -/
def HasCode (options : RunOptions) (tree : FileTree) (list : List Text) (code : Text) : Prop :=
  ∃ text, tree.node? (options.inputDir.place tree.current ++ list) = some (.file (.text text)) ∧
    schemaFileFor options.target text = .ok code

/-- The files that a source file with some code gives: the names that lead to
them from the base directory, and their texts. -/
inductive Output (options : RunOptions) (list : List Text) (code : Text) : List Text → Text → Prop
  | schema : Output options list code ("types".toList :: list) code
  | barrel (kind : BarrelKind) (h : kind.select (Barrel.exports code) ≠ []) :
    Output options list code [stemName list, kind.fileName]
      (Barrel.render (kind.select (Barrel.exports code))
        (Specifier.ofPath (options.baseDir.join ⟨stemName list⟩)
          (options.schemaDir.join ⟨Text.joinWith "/" list⟩)))

/-- What a run should leave below its base directory: the output of its source
files, each of which has code, in finished form. -/
def LeavesOutput (options : RunOptions) (tree later : FileTree) : Prop :=
  (∀ list, IsSource tree options.inputDir list → ∃ code, HasCode options tree list code) ∧
  ∀ below content,
    later.node? (options.baseDir.place tree.current ++ below) = some (.file content) ↔
      ∃ list code text, IsSource tree options.inputDir list ∧ HasCode options tree list code ∧
        Output options list code below text ∧ content = .text (options.finished text)

/-- Runs whose output replaces what lay below the base directory, and gets in
the way of neither source files nor other output. -/
structure Apart (options : RunOptions) (tree : FileTree) : Prop where
  clean : options.clean = true
  outside : ¬options.inputDir.searched.place tree.current <+: options.baseDir.place tree.current
  apart : ¬options.baseDir.place tree.current <+: options.inputDir.searched.place tree.current
  stem_injective : ∀ first second, IsSource tree options.inputDir first →
    IsSource tree options.inputDir second → stemName first = stemName second → first = second
  stem_proper : ∀ list, IsSource tree options.inputDir list →
    stemName list ≠ "types" ∧ stemName list ≠ "." ∧ stemName list ≠ ".."

/-- Such runs with directories that are spelled well: source files are seen as
lying below the input directory, and older output is found. -/
structure Tidy (options : RunOptions) (tree : FileTree) : Prop extends Apart options tree where
  ne_here : options.inputDir.components.head? ≠ some .here
  reaches : tree.Reaches options.baseDir

/-- The input directory is given, because the root contains the base
directory. -/
theorem Tidy.plain {options : RunOptions} {tree : FileTree} (htidy : Tidy options tree) :
    options.inputDir.Plain := by
  refine ⟨fun hempty => htidy.outside ?_, htidy.ne_here⟩
  rw [Path.searched, hempty]
  exact List.nil_prefix

/-- The input directory is the one that is searched. -/
theorem Tidy.searched {options : RunOptions} {tree : FileTree} (htidy : Tidy options tree) :
    options.inputDir.searched = options.inputDir := searched_eq_self htidy.plain.ne_nil

section Reaching

variable {tree : FileTree} {path : Path}

/-- A path without double dots leads to whatever stands at its place, unless
it asks for a directory. -/
theorem meets_of_up_notMem (hrooted : tree.Rooted) (hempty : path.text ≠ [])
    (hup : "..".toList ∉ names path) (hlast : (names path).getLast? ≠ some ".".toList)
    (hwants : wantsDirectory path = false) : tree.Meets path := by
  by_cases hthere : ∃ below node, tree.node? (path.place tree.current ++ below) = some node
  · obtain ⟨below, node, hnode⟩ := hthere
    obtain ⟨found, hwalk⟩ := hrooted.walk hup hlast hnode
    have hspot : tree.spot path = .ok (.taken (path.place tree.current) found) := by
      rw [FileTree.spot, if_neg (by simpa using hempty)]
      exact hwalk
    left
    rw [FileTree.find, hspot]
    cases found with
    | directory => rfl
    | file held =>
      dsimp only [bind, Except.bind]
      rw [hwants]
      rfl
  · right
    intro below
    by_contra hsome
    exact hthere ⟨below, Option.ne_none_iff_exists'.1 hsome⟩

/-- The base directory is found, or nothing is there, if the output directory is
spelled without double dots. -/
theorem meets_baseDir (options : RunOptions) (hrooted : tree.Rooted)
    (hup : "..".toList ∉ names options.outputDir) : tree.Meets options.baseDir := by
  obtain ⟨habs, hnames, hdots, hslash⟩ : Path.isAbsolute ⟨options.target.name⟩ = false ∧
      names ⟨options.target.name⟩ = [options.target.name] ∧
      (options.target.name ≠ ".." ∧ options.target.name ≠ ".") ∧
      ∃ c, options.target.name.getLast? = some c ∧ c ≠ '/' := by
    cases options.target <;> exact ⟨rfl, rfl, by decide, _, rfl, by decide⟩
  have hbase : names options.baseDir = names options.outputDir ++ [options.target.name] := by
    rw [RunOptions.baseDir, names_join _ habs, hnames]
  refine meets_of_up_notMem hrooted options.baseDir_text ?_ ?_ ?_
  · rw [hbase, List.mem_append, List.mem_singleton]
    exact not_or.2 ⟨hup, hdots.1.symm⟩
  · rw [hbase, List.getLast?_concat]
    exact fun heq => hdots.2 (Option.some.inj heq)
  · obtain ⟨c, hc, hne⟩ := hslash
    have hlast : options.baseDir.text.getLast? = some c := by
      rw [RunOptions.baseDir, Path.join, if_neg (by simp [habs])]
      split <;> simp [hc, List.getLast?_cons]
    rw [wantsDirectory, hlast]
    simpa using hne

/-- Older output is found if the output directory is spelled without double
dots. -/
theorem reaches_baseDir (options : RunOptions) (hrooted : tree.Rooted)
    (hup : "..".toList ∉ names options.outputDir) : tree.Reaches options.baseDir :=
  (meets_baseDir options hrooted hup).reaches

end Reaching

section Single

variable {options : RunOptions} {tree : FileTree} {first second below : List Text}
  {code code' text text' : Text}

/-- A source file has one code. -/
theorem HasCode.unique (h : HasCode options tree first code)
    (h' : HasCode options tree first code') : code = code' := by
  obtain ⟨source, hnode, hcode⟩ := h
  obtain ⟨source', hnode', hcode'⟩ := h'
  obtain rfl : source = source' := by simpa using hnode.symm.trans hnode'
  exact Except.ok.inj (hcode.symm.trans hcode')

/-- The files that a source file gives, one by one. -/
theorem output_iff : Output options first code below text ↔
    below = "types".toList :: first ∧ text = code ∨
      ∃ kind : BarrelKind, kind.select (Barrel.exports code) ≠ [] ∧
        below = [stemName first, kind.fileName] ∧
        text = Barrel.render (kind.select (Barrel.exports code))
          (Specifier.ofPath (options.baseDir.join ⟨stemName first⟩)
            (options.schemaDir.join ⟨Text.joinWith "/" first⟩)) := by
  constructor
  · rintro (_ | ⟨kind, h⟩)
    · exact .inl ⟨rfl, rfl⟩
    · exact .inr ⟨kind, h, rfl, rfl⟩
  · rintro (⟨rfl, rfl⟩ | ⟨kind, h, rfl, rfl⟩)
    · exact .schema
    · exact .barrel kind h

/-- All output is source files again. -/
theorem Output.endsAsSource (h : Output options first code below text)
    (hfirst : endsAsSource first = true) : endsAsSource below = true := by
  cases h with
  | schema =>
    obtain ⟨last, hlast⟩ := List.getLast?_isSome.2 (ne_nil_of_endsAsSource hfirst) |>
      Option.isSome_iff_exists.1
    rw [Disk.endsAsSource, List.getLast?_cons, hlast]
    rw [Disk.endsAsSource, hlast] at hfirst
    exact hfirst
  | barrel kind => cases kind <;> rfl

/-- Names lead to the output of one source file, which is one text. -/
theorem Output.unique (htidy : Tidy options tree) (hfirst : IsSource tree options.inputDir first)
    (hsecond : IsSource tree options.inputDir second) (hcode : HasCode options tree first code)
    (hcode' : HasCode options tree second code') (h : Output options first code below text)
    (h' : Output options second code' below text') : text = text' := by
  rcases output_iff.1 h with ⟨hbelow, htext⟩ | ⟨kind, -, hbelow, htext⟩ <;>
    rcases output_iff.1 h' with ⟨hbelow', htext'⟩ | ⟨kind', -, hbelow', htext'⟩ <;>
    obtain ⟨hstem, hrest⟩ := List.cons.inj (hbelow.symm.trans hbelow')
  · subst hrest
    rw [htext, htext', hcode.unique hcode']
  · exact absurd hstem.symm (htidy.stem_proper second hsecond).1
  · exact absurd hstem (htidy.stem_proper first hfirst).1
  · obtain rfl := htidy.stem_injective first second hfirst hsecond hstem
    obtain rfl := hcode.unique hcode'
    have hkind : kind = kind' := by
      revert hrest
      cases kind <;> cases kind' <;> decide
    rw [htext, htext', hkind]

end Single

section Places

variable {options : RunOptions} {tree cleaned : FileTree} {list below : List Text}

/-- Nothing below the input directory lies below the base directory. -/
theorem Tidy.not_prefix (htidy : Tidy options tree) (list : List Text) :
    ¬options.baseDir.place tree.current <+: options.inputDir.place tree.current ++ list := fun h =>
  (List.prefix_or_prefix_of_prefix h (List.prefix_append _ list)).elim
    (htidy.searched ▸ htidy.apart) (htidy.searched ▸ htidy.outside)

/-- Source files do not lie where output does. -/
theorem Tidy.ne_append (htidy : Tidy options tree) (below list : List Text) :
    options.baseDir.place tree.current ++ below ≠ options.inputDir.place tree.current ++ list :=
  fun heq => htidy.not_prefix list (heq ▸ List.prefix_append _ below)

/-- Barrels lie right below the base directory. -/
theorem Tidy.place_barrelPath (htidy : Tidy options tree)
    (hlist : IsSource tree options.inputDir list) (hdown : LeadDown list) (kind : BarrelKind) :
    (options.barrelPath (sourcePath options.inputDir list) kind).place tree.current =
      options.baseDir.place tree.current ++ [stemName list, kind.fileName] := by
  obtain ⟨-, hdot, hup⟩ := htidy.stem_proper list hlist
  rw [RunOptions.place_barrelPath options _ hdown, Place.follow, if_neg hdot, if_neg hup,
    Place.follow, List.append_assoc]
  rfl

/-- Cleaning leaves the source files as they are. -/
theorem Tidy.node?_cleaned (htidy : Tidy options tree)
    (hcleaned : Cleaned (options.baseDir.place tree.current) tree cleaned) (list : List Text) :
    cleaned.node? (options.inputDir.place tree.current ++ list) =
      tree.node? (options.inputDir.place tree.current ++ list) :=
  hcleaned.elsewhere _ (htidy.not_prefix list)

/-- Cleaning leaves the source files as they are. -/
theorem Tidy.isSource_cleaned (htidy : Tidy options tree)
    (hcleaned : Cleaned (options.baseDir.place tree.current) tree cleaned) :
    IsSource cleaned options.inputDir list ↔ IsSource tree options.inputDir list := by
  have hnode : (∃ content,
        cleaned.node? (options.inputDir.searched.place cleaned.current ++ list) =
          some (.file content)) ↔
      ∃ content,
        tree.node? (options.inputDir.searched.place tree.current ++ list) =
          some (.file content) := by
    rw [htidy.searched, hcleaned.current, htidy.node?_cleaned hcleaned]
  exact ⟨fun h => ⟨hnode.1 h.file, h.ending⟩, fun h => ⟨hnode.2 h.file, h.ending⟩⟩

end Places

section Written

variable {options : RunOptions} {tree cleaned generated written : FileTree}
  {made held : List (Path × Text)} {files : List GeneratedFile} {paths : List Path}
  {source : Path × Text} {list below : List Text} {code text : Text}
  (htree : tree.WellFormed) (htidy : Tidy options tree)
  (hcleaned : Cleaned (options.baseDir.place tree.current) tree cleaned)
  (hmade : Generated options (inputPaths options cleaned) cleaned made files generated)
  (hheld : Barrel.Barrelled options (inputPaths options cleaned) generated held paths written)

include htree htidy hcleaned hmade

/-- The code of a schema file comes from its source file. -/
theorem hasCode_of_made (h : source ∈ made) : ∃ list, IsSource tree options.inputDir list ∧
    source.1 = sourcePath options.inputDir list ∧ HasCode options tree list source.2 := by
  have hwell := hcleaned.wellFormed htree
  have hplaces : ∀ list, IsSource cleaned options.inputDir list →
      (sourcePath options.inputDir list).place cleaned.current =
        options.inputDir.place tree.current ++ list := fun list hlist => by
    rw [place_sourcePath _ _ (hlist.leadDown hwell), htidy.searched, hcleaned.current]
  obtain ⟨list, hlist, heq⟩ := exists_source hwell hmade.sources h
  obtain ⟨text, hcode, hnode⟩ := hmade.code source h
  rw [heq, hplaces list hlist] at hnode
  refine ⟨list, (htidy.isSource_cleaned hcleaned).1 hlist, heq, text, ?_, hcode⟩
  rw [← htidy.node?_cleaned hcleaned]
  refine hnode fun other hother => ?_
  obtain ⟨names, hnames, rfl⟩ := List.mem_map.1 hother
  have hsource := isSource_of_mem_sources hwell hnames
  rw [RunOptions.place_schemaPath htidy.plain _ (hsource.leadDown hwell), hcleaned.current]
  exact htidy.ne_append _ list

include hheld

/-- What is read back for barrels comes from a source file. -/
theorem hasCode_of_held (h : source ∈ held) : ∃ list, IsSource tree options.inputDir list ∧
    source.1 = sourcePath options.inputDir list ∧ HasCode options tree list source.2 := by
  have hstem : ∀ list, IsSource cleaned options.inputDir list → stemName list ≠ "types" :=
    fun list hlist => (htidy.stem_proper list ((htidy.isSource_cleaned hcleaned).1 hlist)).1
  exact hasCode_of_made htree htidy hcleaned hmade
    (mem_made_of_mem_held (hcleaned.wellFormed htree) htidy.plain hstem hmade hheld h)

/-- Everything that is saved is the output of a source file. -/
theorem output_of_mem {write : Path × Text} (h : write ∈ savedFiles options made held) :
    ∃ list code below, IsSource tree options.inputDir list ∧ HasCode options tree list code ∧
      Output options list code below write.2 ∧
      write.1.place tree.current = options.baseDir.place tree.current ++ below := by
  have hwell := hcleaned.wellFormed htree
  rcases List.mem_append.1 h with h | h
  · obtain ⟨source, hsource, rfl⟩ := List.mem_map.1 h
    obtain ⟨list, hlist, heq, hcode⟩ := hasCode_of_made htree htidy hcleaned hmade hsource
    have hdown := ((htidy.isSource_cleaned hcleaned).2 hlist).leadDown hwell
    refine ⟨list, source.2, _, hlist, hcode, .schema, ?_⟩
    dsimp only
    rw [heq, RunOptions.place_schemaPath htidy.plain _ hdown]
  · obtain ⟨source, hsource, hwrite⟩ := List.mem_flatMap.1 h
    obtain ⟨list, hlist, heq, hcode⟩ := hasCode_of_held htree htidy hcleaned hmade hheld hsource
    have hdown := ((htidy.isSource_cleaned hcleaned).2 hlist).leadDown hwell
    obtain ⟨kind, hkind, rfl⟩ := Barrel.mem_barrelWrites.1 hwrite
    dsimp only
    rw [heq, RunOptions.barrelDir_sourcePath options hdown,
      RunOptions.schemaPath_sourcePath htidy.plain hdown]
    exact ⟨list, source.2, _, hlist, hcode, .barrel kind hkind,
      htidy.place_barrelPath hlist hdown kind⟩

/-- All output of a source file is saved. -/
theorem exists_mem_of_output (hne : sources cleaned options.inputDir ≠ [])
    (hlist : IsSource tree options.inputDir list) (hcode : HasCode options tree list code)
    (h : Output options list code below text) :
    ∃ write ∈ savedFiles options made held, write.2 = text ∧
      write.1.place tree.current = options.baseDir.place tree.current ++ below := by
  have hwell := hcleaned.wellFormed htree
  have hsource := (htidy.isSource_cleaned hcleaned).2 hlist
  have hdown := hsource.leadDown hwell
  cases h with
  | schema =>
    obtain ⟨code', hmem⟩ := exists_mem_of_isSource hwell hne hmade.sources hsource
    obtain ⟨list', hlist', heq, hcode'⟩ := hasCode_of_made htree htidy hcleaned hmade hmem
    obtain rfl : list = list' := sourcePath_injective hdown
      (((htidy.isSource_cleaned hcleaned).2 hlist').leadDown hwell) heq
    refine ⟨_, List.mem_append_left _ (List.mem_map_of_mem hmem), hcode'.unique hcode, ?_⟩
    exact RunOptions.place_schemaPath htidy.plain _ hdown
  | barrel kind hkind =>
    obtain ⟨code', hmem⟩ := exists_mem_of_isSource hwell hne hheld.sources hsource
    obtain ⟨list', hlist', heq, hcode'⟩ := hasCode_of_held htree htidy hcleaned hmade hheld hmem
    obtain rfl : list = list' := sourcePath_injective hdown
      (((htidy.isSource_cleaned hcleaned).2 hlist').leadDown hwell) heq
    obtain rfl : code' = code := hcode'.unique hcode
    refine ⟨_, List.mem_append_right _ (List.mem_flatMap.2 ⟨_, hmem,
      Barrel.mem_barrelWrites.2 ⟨kind, hkind, rfl⟩⟩), ?_, htidy.place_barrelPath hlist hdown kind⟩
    dsimp only
    rw [RunOptions.barrelDir_sourcePath options hdown,
      RunOptions.schemaPath_sourcePath htidy.plain hdown]

/-- Once everything is saved, exactly the output lies below the base
directory. -/
theorem node?_written_iff (hnone : ∀ below content,
      cleaned.node? (options.baseDir.place tree.current ++ below) ≠ some (.file content))
    (hne : sources cleaned options.inputDir ≠ []) {content : Content} :
    written.node? (options.baseDir.place tree.current ++ below) = some (.file content) ↔
      ∃ list code text, IsSource tree options.inputDir list ∧ HasCode options tree list code ∧
        Output options list code below text ∧ content = .text text := by
  have hwrote : Wrote cleaned (savedFiles options made held) written :=
    hmade.wrote.append hheld.wrote
  rw [hwrote.node?_iff (hnone below), hcleaned.current]
  · constructor
    · rintro ⟨write, hwrite, hplace, rfl⟩
      obtain ⟨list, code, below', hlist, hcode, houtput, hplace'⟩ :=
        output_of_mem htree htidy hcleaned hmade hheld hwrite
      obtain rfl : below' = below := List.append_cancel_left (hplace'.symm.trans hplace)
      exact ⟨list, code, write.2, hlist, hcode, houtput, rfl⟩
    · rintro ⟨list, code, text, hlist, hcode, houtput, rfl⟩
      obtain ⟨write, hwrite, rfl, hplace⟩ :=
        exists_mem_of_output htree htidy hcleaned hmade hheld hne hlist hcode houtput
      exact ⟨write, hwrite, hplace, rfl⟩
  · intro write hwrite other hother hsame
    obtain ⟨list, code, below, hlist, hcode, houtput, hplace⟩ :=
      output_of_mem htree htidy hcleaned hmade hheld hwrite
    obtain ⟨list', code', below', hlist', hcode', houtput', hplace'⟩ :=
      output_of_mem htree htidy hcleaned hmade hheld hother
    rw [hcleaned.current, hplace, hplace'] at hsame
    obtain rfl := List.append_cancel_left hsame
    exact houtput.unique htidy hlist hlist' hcode hcode' houtput'

end Written

section Whole

variable {options : RunOptions} {tree later : FileTree} {summary : RunSummary}

/-- A run that succeeds leaves below the base directory exactly the output of
its source files. -/
theorem run_outputs (htree : tree.WellFormed) (htidy : Tidy options tree)
    (hran : Ran (Run.run options) tree summary later) (hinputs : summary.noInputs = false) :
    LeavesOutput options tree later := by
  obtain ⟨cleaned, generated, written, made, held, hclean, hne, hmade, hheld, hfinished⟩ :=
    run_ok htree htidy.plain hran hinputs
  have hcleaned := cleanOutput_cleaned hclean
  have hwell := hcleaned.wellFormed htree
  have hwrote : Wrote cleaned (savedFiles options made held) written :=
    hmade.wrote.append hheld.wrote
  have hcurrent : written.current = tree.current := hwrote.grows.current.trans hcleaned.current
  refine ⟨fun list hlist => ?_, fun below content => ?_⟩
  · have hsource := (htidy.isSource_cleaned hcleaned).2 hlist
    obtain ⟨code, hmem⟩ := exists_mem_of_isSource hwell hne hmade.sources hsource
    obtain ⟨list', hlist', heq, hcode⟩ := hasCode_of_made htree htidy hcleaned hmade hmem
    obtain rfl : list = list' := sourcePath_injective (hsource.leadDown hwell)
      (((htidy.isSource_cleaned hcleaned).2 hlist').leadDown hwell) heq
    exact ⟨code, hcode⟩
  -- before specifiers are completed, exactly the output lies there
  have hnone := cleanOutput_below hclean htidy.clean htidy.reaches
  have hwritten : ∀ below content,
      written.node? (options.baseDir.place tree.current ++ below) = some (.file content) ↔
        ∃ list code text, IsSource tree options.inputDir list ∧ HasCode options tree list code ∧
          Output options list code below text ∧ content = .text text := fun below content =>
    node?_written_iff htree htidy hcleaned hmade hheld hnone hne
  have hsource : ∀ list content,
      written.node? (options.baseDir.place tree.current ++ list) = some (.file content) →
        IsSource written options.baseDir list := by
    intro list content hnode
    obtain ⟨source, code, text, hlist, -, houtput, -⟩ := (hwritten list content).1 hnode
    refine ⟨⟨content, ?_⟩, houtput.endsAsSource hlist.ending⟩
    rw [searched_eq_self options.baseDir_text, hcurrent]
    exact hnode
  have htext := hfinished.text
  have huntouched := hfinished.grows.untouched
  rw [hcurrent] at htext huntouched
  constructor
  · intro hnode
    by_cases hbelow : IsSource written options.baseDir below
    · obtain ⟨held, hheld⟩ := hbelow.file
      rw [searched_eq_self options.baseDir_text, hcurrent] at hheld
      obtain ⟨list, code, text, hlist, hcode, houtput, rfl⟩ := (hwritten below held).1 hheld
      have hlater := htext below text hbelow.ending hheld
      exact ⟨list, code, text, hlist, hcode, houtput, by simpa using hnode.symm.trans hlater⟩
    · refine absurd (hsource below content ((huntouched _ _ ?_).1 hnode)) hbelow
      rintro ⟨list, hlist, heq⟩
      exact hbelow (List.append_cancel_left heq ▸ hlist)
  · rintro ⟨list, code, text, hlist, hcode, houtput, rfl⟩
    exact htext below text (houtput.endsAsSource hlist.ending)
      ((hwritten below (.text text)).2 ⟨list, code, text, hlist, hcode, houtput, rfl⟩)

/-- A tree with one source file in a nested directory, and older output. -/
def nestedTree : FileTree where
  nodes := [
    (["out"], .directory), (["out", "types"], .directory),
    (["out", "types", "old.ts"], .file (.text "export type Old = 1\n")),
    (["src"], .directory), (["src", "x"], .directory),
    (["src", "x", "a.ts"], .file (.text "export interface A \x7b b: string \x7d"))]
  current := []

/-- The options of a run from one directory to another. -/
def nestedOptions (inputDir : Path) : RunOptions where
  target := .types
  inputDir := inputDir
  outputDir := ⟨"out"⟩
  clean := true
  fixImports := true

/-- The names that lead to the source file of the tree. -/
def nestedNames : List Text := ["x", "a.ts"]

/-- The tree has one source file, however the input directory is spelled. -/
theorem isSource_nested {inputDir : Path} {list : List Text}
    (hfind : (nestedTree.find inputDir.searched).toOption.map Prod.snd = some .directory)
    (hsources : sources nestedTree inputDir = [nestedNames]) :
    IsSource nestedTree inputDir list ↔ list = nestedNames := by
  have htree : nestedTree.WellFormed := by decide +kernel
  rw [← mem_sources htree, hsources, List.mem_singleton]
  rcases hfound : nestedTree.find inputDir.searched with error | ⟨place, node⟩
  · rw [hfound] at hfind
    cases hfind
  · rw [hfound] at hfind
    obtain rfl : node = .directory := Option.some.inj hfind
    exact ⟨place, rfl⟩

/-- Source files and output of the tree lie apart. -/
theorem apart_nested {inputDir : Path}
    (hsource : ∀ list, IsSource nestedTree inputDir list ↔ list = nestedNames)
    (hplace : inputDir.searched.place nestedTree.current = ["src".toList])
    (hbase : (nestedOptions inputDir).baseDir.place nestedTree.current =
      ["out".toList, "types".toList]) :
    Apart (nestedOptions inputDir) nestedTree where
  clean := rfl
  outside := by
    rw [show (nestedOptions inputDir).inputDir = inputDir from rfl, hplace, hbase]
    decide +kernel
  apart := by
    rw [show (nestedOptions inputDir).inputDir = inputDir from rfl, hplace, hbase]
    decide +kernel
  stem_injective first second hfirst hsecond _ :=
    ((hsource first).1 hfirst).trans ((hsource second).1 hsecond).symm
  stem_proper list hlist := by
    rw [(hsource list).1 hlist]
    decide +kernel

/-- A run that puts the schema file where its source file lies, below the
directory for schema files. -/
theorem run_outputs_nested :
    ∃ summary later, Ran (Run.run (nestedOptions ⟨"src"⟩)) nestedTree summary later ∧
      LeavesOutput (nestedOptions ⟨"src"⟩) nestedTree later ∧
      ∃ text, later.node? ["out", "types", "types", "x", "a.ts"] = some (.file (.text text)) := by
  have hsource : ∀ list, IsSource nestedTree ⟨"src"⟩ list ↔ list = nestedNames := fun list =>
    isSource_nested (by decide +kernel) (by decide +kernel)
  have htidy : Tidy (nestedOptions ⟨"src"⟩) nestedTree :=
    { apart_nested hsource (by decide +kernel) (by decide +kernel) with
      ne_here := by decide +kernel
      reaches := .inl (by decide +kernel) }
  obtain ⟨summary, hran, hinputs⟩ : ∃ summary, Ran (Run.run (nestedOptions ⟨"src"⟩)) nestedTree
      summary (outcome (nestedOptions ⟨"src"⟩) nestedTree).2 ∧ summary.noInputs = false :=
    ran_of_outcome (by decide +kernel)
  have hleaves := run_outputs (by decide +kernel) htidy hran hinputs
  have hlist := (hsource nestedNames).2 rfl
  obtain ⟨code, hcode⟩ := hleaves.1 nestedNames hlist
  have hschema := (hleaves.2 ("types".toList :: nestedNames) _).2
    ⟨nestedNames, code, code, hlist, hcode, .schema, rfl⟩
  have hplace : (nestedOptions ⟨"src"⟩).baseDir.place nestedTree.current ++
      "types".toList :: nestedNames = ["out", "types", "types", "x", "a.ts"] := by decide +kernel
  exact ⟨summary, _, hran, hleaves, _, hplace ▸ hschema⟩

/-- With a leading single dot a nested source file is not seen as lying below
the input directory, and its schema file ends up beside those of other
directories. -/
theorem not_run_outputs_of_leading_here :
    ¬∀ options tree later summary, tree.WellFormed → Apart options tree →
      Ran (Run.run options) tree summary later → summary.noInputs = false →
        LeavesOutput options tree later := by
  intro h
  have hsource : ∀ list, IsSource nestedTree ⟨"./src"⟩ list ↔ list = nestedNames := fun list =>
    isSource_nested (by decide +kernel) (by decide +kernel)
  obtain ⟨summary, hran, hinputs⟩ : ∃ summary, Ran (Run.run (nestedOptions ⟨"./src"⟩)) nestedTree
      summary (outcome (nestedOptions ⟨"./src"⟩) nestedTree).2 ∧ summary.noInputs = false :=
    ran_of_outcome (by decide +kernel)
  have hapart : Apart (nestedOptions ⟨"./src"⟩) nestedTree :=
    apart_nested hsource (by decide +kernel) (by decide +kernel)
  have hleaves := h _ _ _ _ (by decide +kernel) hapart hran hinputs
  have hlist := (hsource nestedNames).2 rfl
  obtain ⟨code, hcode⟩ := hleaves.1 nestedNames hlist
  have hschema := (hleaves.2 ("types".toList :: nestedNames) _).2
    ⟨nestedNames, code, code, hlist, hcode, .schema, rfl⟩
  have hmissing : (outcome (nestedOptions ⟨"./src"⟩) nestedTree).2.node?
      ((nestedOptions ⟨"./src"⟩).baseDir.place nestedTree.current ++
        "types".toList :: nestedNames) = none := by decide +kernel
  rw [hmissing] at hschema
  cases hschema

end Whole

end InterfaceSchema
