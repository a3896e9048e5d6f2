import InterfaceSchema.Proofs.Run.Plan

/-!
# Runs that succeed

A run succeeds if its source files have code and if nothing is in the way of
what it should write. This is so when the tree fits one in which everything
that is planned is a file already, as after an earlier run.
-/

namespace InterfaceSchema

open FileTree Disk

variable {options : RunOptions} {part : Place → Prop} {tree cleaned goal later : FileTree}
  {made log : List (Path × Text)} {inputs : List Path} {input : Path}

section Cleaning

/-- Cleaning succeeds unless a file stands in the place of the base
directory. -/
theorem cleanOutput_succeeds
    (h : options.clean = true → ∀ place content, tree.find options.baseDir ≠
      .ok (place, .file content)) : ∃ cleaned, Ran (Run.cleanOutput options) tree () cleaned := by
  rw [Run.cleanOutput]
  split
  · next hclean =>
    rcases hfind : tree.find options.baseDir with cause | ⟨place, _ | content⟩
    · refine ⟨tree, ran_bind.2 ⟨false, tree, ran_lift.2 ?_, ran_pure.2 ⟨rfl, rfl⟩⟩⟩
      exact congrArg (fun found : Except DiskError (Place × Node) => (found.toBool, tree)) hfind
    · have hremove : tree.removeDir options.baseDir = .ok (tree.remove place) := by
        rw [FileTree.removeDir, hfind]
        rfl
      refine ⟨tree.remove place, ran_bind.2 ⟨true, tree, ran_lift.2 ?_, ?_⟩⟩
      · exact congrArg (fun found : Except DiskError (Place × Node) => (found.toBool, tree)) hfind
      · exact ran_onDisk.2 (ran_step.2 (congrArg tree.settle hremove))
    · exact absurd hfind (h hclean place content)
  · exact ⟨tree, ran_pure.2 ⟨rfl, rfl⟩⟩

end Cleaning

section Generating

/-- Writing the schema file of a source file that has code. -/
theorem generateFile_succeeds {code : Text} (hfits : Fits part tree goal)
    (hcode : codeOf options tree input = .ok code)
    (hgoal : LeadsWithin part goal (options.schemaPath input)) :
    ∃ file later, Ran (Run.generateFile options input) tree file later ∧ Fits part later goal ∧
      Saved tree (options.schemaPath input) code later := by
  obtain ⟨source, hread, hgenerate⟩ := codeOf_ok_iff.1 hcode
  obtain ⟨result, later, hupdate, hfitsLater⟩ := update_succeeds hfits hgoal code
  have hreadRan : Ran (Disk.read input) tree source tree :=
    ran_step.2 (congrArg (fun text : Except DiskError Text => (text, tree)) hread)
  refine ⟨⟨input, options.schemaPath input, result⟩, later, ?_, hfitsLater, update_ok hupdate⟩
  rw [Run.generateFile]
  refine ran_bind.2 ⟨source, tree, ran_onDisk.2 hreadRan, ?_⟩
  rw [hgenerate]
  exact ran_bind.2 ⟨result, later, ran_onDisk.2 hupdate, ran_pure.2 ⟨rfl, rfl⟩⟩

/-- Source files that have code, and that no schema file replaces. -/
structure Unreplaced (options : RunOptions) (tree : FileTree) (made : List (Path × Text)) :
    Prop where
  code : ∀ source ∈ made, codeOf options tree source.1 = .ok source.2
  found : ∀ source ∈ made, ∃ content,
    tree.find source.1 = .ok (source.1.place tree.current, .file content)
  apart : ∀ source ∈ made, ∀ other ∈ made,
    (options.schemaPath other.1).place tree.current ≠ source.1.place tree.current

/-- Writing one schema file leaves the other source files as they are. -/
theorem Unreplaced.of_saved {first : Path × Text}
    (h : Unreplaced options tree (first :: made))
    (hsaved : Saved tree (options.schemaPath first.1) first.2 later) :
    Unreplaced options later made := by
  have hcurrent := hsaved.grows.current
  have hfind : ∀ source ∈ made, ∃ content,
      tree.find source.1 = .ok (source.1.place tree.current, .file content) ∧
      later.find source.1 = .ok (source.1.place tree.current, .file content) := by
    intro source hsource
    obtain ⟨content, hfind⟩ := h.found source (List.mem_cons_of_mem _ hsource)
    have happart := h.apart source (List.mem_cons_of_mem _ hsource) first List.mem_cons_self
    have hnode := (hsaved.grows.untouched _ content fun heq => happart heq.symm).2
      (find_file hfind).2
    exact ⟨content, hfind, hsaved.grows.find_file hfind hnode⟩
  refine ⟨fun source hsource => ?_, fun source hsource => ?_, ?_⟩
  · obtain ⟨content, hfind, hlater⟩ := hfind source hsource
    rw [codeOf_congr hfind hlater]
    exact h.code source (List.mem_cons_of_mem _ hsource)
  · obtain ⟨content, -, hlater⟩ := hfind source hsource
    exact ⟨content, by rw [hcurrent]; exact hlater⟩
  · rw [hcurrent]
    exact fun source hsource other hother => h.apart source (List.mem_cons_of_mem _ hsource)
      other (List.mem_cons_of_mem _ hother)

/-- Writing the schema files of source files that have code. -/
theorem generateFiles_succeeds (hfits : Fits part tree goal)
    (hmade : Unreplaced options tree made)
    (hgoal : ∀ source ∈ made, LeadsWithin part goal (options.schemaPath source.1)) :
    ∃ files later, Ran (Run.generateFiles options (made.map Prod.fst)) tree files later ∧
      Fits part later goal ∧ Wrote tree (schemaWrites options made) later := by
  induction made generalizing tree with
  | nil => exact ⟨[], tree, ran_pure.2 ⟨rfl, rfl⟩, hfits, .refl tree⟩
  | cons first rest ih =>
    obtain ⟨file, middle, hfirst, hfitsMiddle, hsaved⟩ := generateFile_succeeds hfits
      (hmade.code first List.mem_cons_self) (hgoal first List.mem_cons_self)
    obtain ⟨others, later, hothers, hfitsLater, hwrote⟩ := ih hfitsMiddle (hmade.of_saved hsaved)
      fun source hsource => hgoal source (List.mem_cons_of_mem _ hsource)
    refine ⟨file :: others, later, ?_, hfitsLater, middle, hsaved, hwrote⟩
    rw [List.map_cons, Run.generateFiles]
    exact ran_bind.2 ⟨file, middle, hfirst, ran_bind.2 ⟨others, later, hothers,
      ran_pure.2 ⟨rfl, rfl⟩⟩⟩

end Generating

section Barrels

variable {directory : Path} {specifier : Text} {names : List Text}

/-- Writing barrels where the goal has them. -/
theorem writeKinds_succeeds {kinds : List BarrelKind} (hfits : Fits part tree goal)
    (hgoal : ∀ write ∈ kinds.filterMap (Barrel.kindWrite? directory specifier names),
      LeadsWithin part goal write.1) :
    ∃ summary later, Ran (Barrel.writeKinds directory specifier names kinds) tree summary later ∧
      Fits part later goal := by
  induction kinds generalizing tree with
  | nil => exact ⟨.none, tree, ran_pure.2 ⟨rfl, rfl⟩, hfits⟩
  | cons kind rest ih =>
    obtain ⟨first, middle, hfirst, hfitsMiddle⟩ : ∃ first middle,
        Ran (Barrel.writeKind directory specifier names kind) tree first middle ∧
          Fits part middle goal := by
      rw [Barrel.writeKind]
      dsimp only
      split
      · exact ⟨.none, tree, ran_pure.2 ⟨rfl, rfl⟩, hfits⟩
      · next hne =>
        have hwrite : Barrel.kindWrite? directory specifier names kind =
            some (directory.join ⟨kind.fileName⟩,
              Barrel.render (kind.select names) specifier) := if_neg hne
        have hmem := hgoal _ (List.mem_filterMap.2 ⟨kind, List.mem_cons_self, hwrite⟩)
        obtain ⟨result, middle, hupdate, hfitsMiddle⟩ := update_succeeds hfits hmem
          (Barrel.render (kind.select names) specifier)
        exact ⟨_, middle, ran_bind.2 ⟨result, middle, hupdate, ran_pure.2 ⟨rfl, rfl⟩⟩,
          hfitsMiddle⟩
    obtain ⟨others, later, hothers, hfitsLater⟩ := ih hfitsMiddle fun write hwrite => by
      obtain ⟨other, hother, heq⟩ := List.mem_filterMap.1 hwrite
      exact hgoal write (List.mem_filterMap.2 ⟨other, List.mem_cons_of_mem _ hother, heq⟩)
    refine ⟨first.append others, later, ?_, hfitsLater⟩
    rw [Barrel.writeKinds]
    exact ran_bind.2 ⟨first, middle, hfirst, ran_bind.2 ⟨others, later, hothers,
      ran_pure.2 ⟨rfl, rfl⟩⟩⟩

/-- Writing the barrels for a source file whose schema file was saved. -/
theorem writeFor_succeeds (hfits : Fits part tree goal) (hwrote : Wrote cleaned log tree)
    (hlog : ∃ text, (options.schemaPath input, text) ∈ log) (hstem : input.fileStem?.isSome)
    (hgoal : ∀ write ∈ barrelLog options cleaned.current [input] log,
      LeadsWithin part goal write.1) :
    ∃ summary later,
      Ran (Barrel.writeFor options.baseDir options.schemaDir options.inputDir input)
        tree summary later ∧ Fits part later goal := by
  obtain ⟨text, hlast, hread⟩ := hwrote.readText hlog
  obtain ⟨stem, hsome⟩ := Option.isSome_iff_exists.1 hstem
  have hfind := readText_ok hread
  have hisFile : Ran (ExceptT.lift (Disk.isFile (options.schemaPath input)) :
      DiskM (StateM FileTree) Bool) tree true tree := by
    refine ran_lift.2 ?_
    have hthere : (tree.read (options.schemaPath input)).toBool = true := by
      rw [FileTree.read, hfind]
      rfl
    exact congrArg (fun found => (found, tree)) hthere
  have hreadRan : Ran (Disk.read (options.schemaPath input)) tree text tree :=
    ran_step.2 (congrArg (fun held : Except DiskError Text => (held, tree)) hread)
  have hdir : options.barrelDir input = options.baseDir.join ⟨stem⟩ := by
    rw [RunOptions.barrelDir, hsome]
    rfl
  have hbarrels : ∀ write ∈ Barrel.barrelWrites options (input, text),
      LeadsWithin part goal write.1 := by
    intro write hwrite
    refine hgoal write ?_
    rw [barrelLog, hlast]
    exact List.mem_append_right _ hwrite
  rw [Barrel.barrelWrites, hdir] at hbarrels
  obtain ⟨summary, later, hkinds, hfitsLater⟩ := writeKinds_succeeds hfits hbarrels
  refine ⟨summary, later, ?_, hfitsLater⟩
  rw [Barrel.writeFor]
  refine ran_bind.2 ⟨true, tree, hisFile, ?_⟩
  rw [if_pos rfl]
  refine ran_bind.2 ⟨text, tree, hreadRan, ?_⟩
  rw [hsome]
  exact hkinds

/-- Writing the barrels for source files whose schema files were saved. -/
theorem writeAll_succeeds (hfits : Fits part tree goal) (hwrote : Wrote cleaned log tree)
    (hlog : ∀ input ∈ inputs, ∃ text, (options.schemaPath input, text) ∈ log)
    (hstem : ∀ input ∈ inputs, input.fileStem?.isSome)
    (hgoal : ∀ write ∈ barrelLog options cleaned.current inputs log,
      LeadsWithin part goal write.1) :
    ∃ summary later,
      Ran (Barrel.writeAll options.baseDir options.schemaDir options.inputDir inputs)
        tree summary later ∧ Fits part later goal := by
  induction inputs generalizing tree log with
  | nil => exact ⟨.none, tree, ran_pure.2 ⟨rfl, rfl⟩, hfits⟩
  | cons input rest ih =>
    have hinput := hlog input List.mem_cons_self
    have hstemInput := hstem input List.mem_cons_self
    obtain ⟨first, middle, hfirst, hfitsMiddle⟩ := writeFor_succeeds hfits hwrote hinput hstemInput
      fun write hwrite => hgoal write ((prefix_barrelLog _ _ rest _).subset hwrite)
    have hmiddle := writeFor_log hstemInput hinput hwrote hfirst
    obtain ⟨others, later, hothers, hfitsLater⟩ := ih hfitsMiddle hmiddle
      (fun other hother => by
        obtain ⟨text, hmem⟩ := hlog other (List.mem_cons_of_mem _ hother)
        exact ⟨text, (prefix_barrelLog options cleaned.current [input] log).subset hmem⟩)
      (fun other hother => hstem other (List.mem_cons_of_mem _ hother)) hgoal
    refine ⟨first.append others, later, ?_, hfitsLater⟩
    rw [Barrel.writeAll]
    exact ran_bind.2 ⟨first, middle, hfirst, ran_bind.2 ⟨others, later, hothers,
      ran_pure.2 ⟨rfl, rfl⟩⟩⟩

end Barrels

section Completing

/-- Completing the specifiers in files that hold texts. -/
theorem completeFiles_succeeds {paths : List Path} (hfits : Fits part tree goal)
    (htext : ∀ path ∈ paths, part (path.place tree.current) ∧
      ∃ text, tree.find path = .ok (path.place tree.current, .file (.text text))) :
    ∃ fixed later, Ran (Specifier.completeFiles paths) tree fixed later ∧
      Fits part later goal := by
  induction paths generalizing tree with
  | nil => exact ⟨[], tree, ran_pure.2 ⟨rfl, rfl⟩, hfits⟩
  | cons path rest ih =>
    obtain ⟨hpart, text, hfind⟩ := htext path List.mem_cons_self
    have hread : tree.readText path = .ok text := by
      rw [FileTree.readText, FileTree.read, hfind]
      rfl
    have hreadRan : Ran (Disk.read path) tree text tree :=
      ran_step.2 (congrArg (fun held : Except DiskError Text => (held, tree)) hread)
    rw [Specifier.completeFiles]
    rcases hfixed : Specifier.complete? text with _ | fixed
    · obtain ⟨others, later, hothers, hfitsLater⟩ := ih hfits fun other hother =>
        htext other (List.mem_cons_of_mem _ hother)
      refine ⟨others, later, ran_bind.2 ⟨text, tree, hreadRan, ?_⟩, hfitsLater⟩
      rw [hfixed]
      exact hothers
    · have hwrite := overwrite_succeeds hfind fixed
      have hsaved := overwrite_ok hwrite
      obtain ⟨held, hgoal⟩ := hfits.file _ _ hpart (find_file hfind).2
      have hroot : path.place tree.current ≠ [] := by
        intro hnil
        have hnode := (find_file hfind).2
        rw [hnil] at hnode
        simp [FileTree.node?] at hnode
      obtain ⟨others, later, hothers, hfitsLater⟩ := ih
        (hfits.put_file hroot hgoal (.text fixed)) fun other hother => by
          obtain ⟨hpartOther, text, hfindOther⟩ := htext other (List.mem_cons_of_mem _ hother)
          refine ⟨hpartOther, ?_⟩
          by_cases hsame : other.place tree.current = path.place tree.current
          · exact ⟨fixed, hsaved.grows.find_file hfindOther (hsame ▸ hsaved.node?)⟩
          · exact ⟨text, hsaved.grows.find_file hfindOther
              ((hsaved.grows.untouched _ _ hsame).2 (find_file hfindOther).2)⟩
      refine ⟨path :: others, later, ran_bind.2 ⟨text, tree, hreadRan, ?_⟩, hfitsLater⟩
      rw [hfixed]
      exact ran_bind.2 ⟨(), _, hwrite, ran_bind.2 ⟨others, later, hothers,
        ran_pure.2 ⟨rfl, rfl⟩⟩⟩

/-- Completing specifiers where the source files below the base directory are
texts. -/
theorem completeOutput_succeeds (htree : tree.WellFormed) (hfits : Fits part tree goal)
    (hfind : tree.find options.baseDir = .ok (options.baseDir.place tree.current, .directory))
    (hpaved : tree.Paved (options.baseDir.place tree.current))
    (hpart : ∀ list, part (options.baseDir.place tree.current ++ list))
    (htext : options.fixImports = true → ∀ list content, endsAsSource list = true →
      tree.node? (options.baseDir.place tree.current ++ list) = some (.file content) →
        ∃ text, content = .text text) :
    ∃ imports later, Ran (Run.completeOutput options) tree imports later ∧
      Fits part later goal := by
  rw [Run.completeOutput]
  split
  · next hfix =>
    have hsearched := searched_eq_self options.baseDir_text
    have hfiles : ∀ path ∈ (sources tree options.baseDir).map (sourcePath options.baseDir),
        part (path.place tree.current) ∧
          ∃ text, tree.find path = .ok (path.place tree.current, .file (.text text)) := by
      intro path hpath
      obtain ⟨list, hlist, rfl⟩ := List.mem_map.1 hpath
      have hsource := isSource_of_mem_sources htree hlist
      have hdown := hsource.leadDown htree
      obtain ⟨content, hnode⟩ := hsource.file
      rw [hsearched] at hnode
      obtain ⟨text, rfl⟩ := htext hfix list content hsource.ending hnode
      rw [place_sourcePath _ _ hdown, hsearched]
      exact ⟨hpart list, text, find_sourcePath (hsearched.symm ▸ hfind) hpaved hdown hnode⟩
    obtain ⟨fixed, later, hcomplete, hfitsLater⟩ := completeFiles_succeeds hfits hfiles
    have hbelow : Ran (Specifier.completeBelow options.baseDir) tree
        ⟨((sources tree options.baseDir).map (sourcePath options.baseDir)).length, fixed⟩ later :=
      ran_bind.2 ⟨_, tree, ran_lift.2 rfl, ran_bind.2 ⟨fixed, later, hcomplete,
        ran_pure.2 ⟨rfl, rfl⟩⟩⟩
    exact ⟨_, later, ran_bind.2 ⟨_, later, ran_onDisk.2 (ran_within.2 hbelow),
      ran_pure.2 ⟨rfl, rfl⟩⟩, hfitsLater⟩
  · exact ⟨none, tree, ran_pure.2 ⟨rfl, rfl⟩, hfits⟩

end Completing

section Whole

/-- Source files that lie apart are not replaced by schema files. -/
theorem unreplaced_of_reads (hreads : Reads options cleaned made) (hcleaned : cleaned.WellFormed)
    (hpaved : cleaned.Paved (options.inputDir.searched.place cleaned.current))
    (hseparate : Separate options cleaned.current) : Unreplaced options cleaned made := by
  have hsource : ∀ source ∈ made, ∃ list ∈ sources cleaned options.inputDir,
      source.1 = sourcePath options.inputDir list ∧ LeadDown list := by
    intro source hmem
    have hinput : source.1 ∈ inputPaths options cleaned :=
      hreads.sources ▸ List.mem_map_of_mem hmem
    obtain ⟨list, hlist, heq⟩ := List.mem_map.1 hinput
    exact ⟨list, hlist, heq.symm, (isSource_of_mem_sources hcleaned hlist).leadDown hcleaned⟩
  refine ⟨hreads.code, fun source hmem => ?_, fun source hmem other hother => ?_⟩
  · obtain ⟨list, hlist, heq, hdown⟩ := hsource source hmem
    obtain ⟨content, hfind⟩ := find_of_mem_inputs hcleaned hpaved hlist
    refine ⟨content, ?_⟩
    rw [heq, place_sourcePath _ _ hdown]
    exact hfind
  · obtain ⟨list, -, heq, hdown⟩ := hsource source hmem
    obtain ⟨names, -, heqOther, hdownNames⟩ := hsource other hother
    rw [heq, heqOther, place_sourcePath _ _ hdown,
      RunOptions.place_schemaPath_seen hseparate.ne_nil _ hdownNames]
    exact fun hsame => hseparate.not_prefix list (hsame ▸ List.prefix_append _ _)

/-- Files that are written below the base directory have their directories
there. -/
theorem paved_of_wrote {written : FileTree} (hcleaned : cleaned.WellFormed)
    (hne : options.inputDir.text ≠ []) (hsources : made.map Prod.fst = inputPaths options cleaned)
    (hpaved : cleaned.Paved (options.baseDir.place cleaned.current))
    (hwrote : Wrote cleaned (plan options cleaned.current made) written) :
    written.Paved (options.baseDir.place cleaned.current) := by
  refine hpaved.grows hwrote.grows ?_
  rintro list ⟨write, hwrite, hplace⟩ above habove hshort
  obtain ⟨source, hsource, houtput⟩ := exists_output_of_mem_plan hcleaned hsources hwrite
  obtain ⟨content, hfind⟩ := hwrote.find hwrite
  refine houtput.directory hne (hsource.leadDown hcleaned) hfind ?_ ?_ ?_
  · rw [hwrote.grows.current]
    exact List.prefix_append _ _
  · rw [hplace]
    exact (List.prefix_append_right_inj _).2 habove
  · rw [hplace]
    exact fun heq => hshort (List.append_cancel_left heq)

/-- A run without source files only cleans. -/
theorem run_succeeds_without_sources (hclean : Ran (Run.cleanOutput options) tree () cleaned)
    (hsources : sources cleaned options.inputDir = []) :
    Ran (Run.run options) tree (Run.emptySummary options) cleaned :=
  ran_run.2 ⟨cleaned, hclean, .inl ⟨hsources, rfl, rfl⟩⟩

/-- A run succeeds if its source files have code, if nothing is in the way of
what is planned, and if what is completed but not written holds texts. -/
theorem run_succeeds (hclean : Ran (Run.cleanOutput options) tree () cleaned)
    (hcleaned : cleaned.WellFormed)
    (hpavedInput : cleaned.Paved (options.inputDir.searched.place cleaned.current))
    (hpavedBase : cleaned.Paved (options.baseDir.place cleaned.current))
    (hseparate : Separate options cleaned.current) (hreads : Reads options cleaned made)
    (hmade : made ≠ []) (hfits : Fits part cleaned goal)
    (hgoal : ∀ write ∈ plan options cleaned.current made, LeadsWithin part goal write.1)
    (hpart : ∀ list, part (options.baseDir.place cleaned.current ++ list))
    (htext : options.fixImports = true → ∀ list content, endsAsSource list = true →
      lastText? cleaned.current (plan options cleaned.current made)
          (options.baseDir.place cleaned.current ++ list) = none →
        cleaned.node? (options.baseDir.place cleaned.current ++ list) = some (.file content) →
          ∃ text, content = .text text) :
    ∃ summary written later, Ran (Run.run options) tree summary later ∧ Fits part later goal ∧
      Produced options cleaned made written later := by
  have hlog : ∀ input ∈ made.map Prod.fst,
      ∃ text, (options.schemaPath input, text) ∈ schemaWrites options made := by
    intro input hinput
    obtain ⟨source, hsource, rfl⟩ := List.mem_map.1 hinput
    exact ⟨source.2, List.mem_map.2 ⟨source, hsource, rfl⟩⟩
  have hschema : ∀ source ∈ made, LeadsWithin part goal (options.schemaPath source.1) :=
    fun source hsource => hgoal (options.schemaPath source.1, source.2)
      ((prefix_barrelLog _ _ _ _).subset (List.mem_map.2 ⟨source, hsource, rfl⟩))
  have hstem : ∀ input ∈ made.map Prod.fst, input.fileStem?.isSome := fun input hinput =>
    isSome_fileStem? hcleaned (hreads.sources ▸ hinput)
  -- the phases succeed one after another
  obtain ⟨files, generated, hfiles, hfitsGenerated, hwroteSchemas⟩ :=
    generateFiles_succeeds hfits (unreplaced_of_reads hreads hcleaned hpavedInput hseparate) hschema
  obtain ⟨barrels, written, hbarrels, hfitsWritten⟩ :=
    writeAll_succeeds hfitsGenerated hwroteSchemas hlog hstem hgoal
  have hwrote : Wrote cleaned (plan options cleaned.current made) written :=
    writeAll_log hstem hlog hwroteSchemas hbarrels
  have hcurrent := hwrote.grows.current
  have hbase := find_baseDir_of_wrote hcleaned hseparate.ne_nil hmade hreads.sources hwrote
  have hpaved := paved_of_wrote hcleaned hseparate.ne_nil hreads.sources hpavedBase hwrote
  obtain ⟨imports, later, hcomplete, hfitsLater⟩ :=
    completeOutput_succeeds (hwrote.grows.wellFormed hcleaned) hfitsWritten hbase
      (hcurrent ▸ hpaved) (hcurrent ▸ hpart) (by
        rw [hcurrent]
        exact fun hfix list content hending hnode =>
          hwrote.exists_text hnode (htext hfix list content hending))
  have hsome := hreads.sources_ne_nil hmade
  have hall := ran_generateAll.2 ⟨files, generated, barrels, written, imports, hfiles, hbarrels,
    hcomplete, rfl⟩
  have hcompletes :=
    completeOutput_completes (hwrote.grows.wellFormed hcleaned) ⟨_, hbase⟩ hcomplete
  exact ⟨_, written, later, ran_run.2 ⟨cleaned, hclean, .inr ⟨hsome, hreads.sources ▸ hall⟩⟩,
    hfitsLater, hreads, hwrote, hcompletes⟩

end Whole

end InterfaceSchema
