import InterfaceSchema.Proofs.Run.Confinement
import InterfaceSchema.Proofs.Run.Plan

/-!
# Runs that stop at a source file

A run stops at the first source file for which there is no code. It reports why
there is none, and leaves behind the schema files of the source files before:
no barrel is written, and no specifier is completed.
-/

namespace InterfaceSchema

open FileTree Disk

variable {options : RunOptions} {tree cleaned later : FileTree} {before behind : List Path}
  {input : Path} {files : List GeneratedFile} {made : List (Path × Text)} {error : RunError}

section Failing

/-- Steps on the disk as steps of a run. -/
theorem failed_onDisk {α : Type} {action : DiskM (StateM FileTree) α} {failure : DiskFailure}
    (h : Failed action tree failure later) : Failed (Run.onDisk action) tree (.disk failure) later := by
  simp only [Failed, Run.onDisk, ExceptT.mk, ExceptT.run, bind, StateT.bind, Id.run]
  rw [show action tree = _ from h]
  rfl

/-- Nothing is written for a source file without code. -/
theorem generateFile_failed (h : codeOf options tree input = .error error) :
    Failed (Run.generateFile options input) tree error tree := by
  rw [codeOf] at h
  rw [Run.generateFile]
  split at h
  · next cause hread =>
    obtain rfl := Except.error.inj h
    exact (failed_onDisk (failed_read hread)).bind
  · next source hread =>
    have hsource : Ran (Run.onDisk (Disk.read input)) tree source tree :=
      ran_onDisk.2 (ran_step.2 (congrArg (fun found : Except DiskError Text => (found, tree)) hread))
    refine hsource.bind_failed ?_
    rcases hcode : schemaFileFor options.target source with cause | code
    · rw [hcode] at h
      obtain rfl := Except.error.inj h
      exact failed_throw _ tree
    · rw [hcode] at h
      cases h

/-- Nothing is written for the source files behind one without code. -/
theorem generateFiles_failed (h : Ran (Run.generateFiles options before) cleaned files later)
    (hfails : codeOf options later input = .error error) :
    Failed (Run.generateFiles options (before ++ input :: behind)) cleaned error later := by
  induction before generalizing cleaned files with
  | nil =>
    obtain ⟨-, rfl⟩ := ran_pure.1 h
    rw [List.nil_append, Run.generateFiles]
    exact (generateFile_failed hfails).bind
  | cons first rest ih =>
    rw [Run.generateFiles] at h
    obtain ⟨file, middle, hfirst, hrest⟩ := ran_bind.1 h
    obtain ⟨others, last, hothers, hdone⟩ := ran_bind.1 hrest
    obtain ⟨-, rfl⟩ := ran_pure.1 hdone
    rw [List.cons_append, Run.generateFiles]
    exact hfirst.bind_failed (ih hothers).bind

/-- No phase follows generating that fails. -/
theorem run_failed (hclean : Ran (Run.cleanOutput options) tree () cleaned)
    (hinputs : inputPaths options cleaned = before ++ input :: behind)
    (h : Ran (Run.generateFiles options before) cleaned files later)
    (hfails : codeOf options later input = .error error) :
    Failed (Run.run options) tree error later := by
  have hlist : Ran (ExceptT.lift (Disk.sourceFiles options.inputDir) :
      Run.RunM (StateM FileTree) (List Path)) cleaned (inputPaths options cleaned) cleaned :=
    ran_lift.2 rfl
  rw [Run.run]
  refine hclean.bind_failed (hlist.bind_failed ?_)
  rw [hinputs, if_neg (by simp)]
  exact (generateFiles_failed h hfails).bind

end Failing

section Codes

/-- A source file that is there after cleaning has the code that it had
before. -/
theorem codeOf_cleaned (htree : tree.WellFormed) (hrooted : tree.Rooted)
    (hclean : Ran (Run.cleanOutput options) tree () cleaned)
    (hinput : input ∈ inputPaths options cleaned) :
    codeOf options cleaned input = codeOf options tree input := by
  have hkept := cleanOutput_cleaned hclean
  have hwell := hkept.wellFormed htree
  have hpaved := (rooted_of_cleanOutput hrooted hclean).paved
    (options.inputDir.searched.place cleaned.current)
  obtain ⟨list, hlist, rfl⟩ := List.mem_map.1 hinput
  obtain ⟨content, hfind⟩ := find_of_mem_inputs hwell hpaved hlist
  have hdown := (isSource_of_mem_sources hwell hlist).leadDown hwell
  obtain ⟨hplace, hnode, hroute, hbelow⟩ := (find_sourcePath_iff hdown).1 hfind
  rw [hkept.current] at hplace hnode hroute hbelow
  have hbefore := (find_sourcePath_iff hdown).2 ⟨hplace, node?_of_cleaned hclean hnode,
    fun entered hentered => node?_of_cleaned hclean (hroute entered hentered),
    fun below hne hprefix hshort => node?_of_cleaned hclean (hbelow below hne hprefix hshort)⟩
  exact codeOf_congr hbefore hfind

/-- A source file has the code that it had before schema files were written,
since these lie apart. -/
theorem codeOf_generated (hcleaned : cleaned.WellFormed)
    (hpaved : cleaned.Paved (options.inputDir.searched.place cleaned.current))
    (hseparate : Separate options cleaned.current)
    (hmade : Generated options before cleaned made files later)
    (hbefore : before ⊆ inputPaths options cleaned) (hinput : input ∈ inputPaths options cleaned) :
    codeOf options later input = codeOf options cleaned input := by
  obtain ⟨list, hlist, rfl⟩ := List.mem_map.1 hinput
  obtain ⟨content, hfind⟩ := find_of_mem_inputs hcleaned hpaved hlist
  refine codeOf_congr hfind (hmade.wrote.grows.find_file hfind ?_)
  refine (hmade.wrote.grows.untouched _ content ?_).2 (find_file hfind).2
  rintro ⟨write, hwrite, hplace⟩
  obtain ⟨source, hsource, rfl⟩ := List.mem_map.1 hwrite
  obtain ⟨names, hnames, heq⟩ :=
    List.mem_map.1 (hbefore (hmade.sources ▸ List.mem_map_of_mem hsource))
  have hdown := (isSource_of_mem_sources hcleaned hnames).leadDown hcleaned
  dsimp only at hplace
  rw [← heq, RunOptions.place_schemaPath_seen hseparate.ne_nil _ hdown] at hplace
  exact hseparate.not_prefix list (hplace ▸ List.prefix_append _ _)

end Codes

/-- What a run leaves behind that stops: the schema files of some source files,
and what was there but for what was cleaned. -/
structure Aborted (options : RunOptions) (tree : FileTree) (made : List (Path × Text))
    (later : FileTree) : Prop where
  /-- The source files have code. -/
  code : ∀ source ∈ made, codeOf options tree source.1 = .ok source.2
  file : ∀ place content, later.node? place = some (.file content) ↔
    match lastText? tree.current (schemaWrites options made) place with
    | some text => content = .text text
    | none => ¬(options.clean = true ∧ options.baseDir.place tree.current <+: place) ∧
      tree.node? place = some (.file content)
  /-- Nothing has changed but for directories on the way to schema files. -/
  elsewhere : ∀ place,
    (∀ source ∈ made, place ∉ (options.schemaPath source.1).route tree.current) →
      later.node? place =
        if options.clean = true ∧ options.baseDir.place tree.current <+: place then none
        else tree.node? place

/-- What is left behind when generating stops after some source files. -/
theorem aborted_of_generated (hclean : Ran (Run.cleanOutput options) tree () cleaned)
    (hmeets : options.clean = true → tree.Meets options.baseDir)
    (hbefore : Ran (Run.generateFiles options before) cleaned files later)
    (hmade : Generated options before cleaned made files later)
    (hcode : ∀ source ∈ made, codeOf options tree source.1 = .ok source.2) :
    Aborted options tree made later := by
  have hcurrent := (cleanOutput_cleaned hclean).current
  refine ⟨hcode, fun place content => ?_, fun place helsewhere => ?_⟩
  · have hwrote : Wrote cleaned (schemaWrites options made) later := hmade.wrote
    rw [hwrote.node?_eq_iff, hcurrent]
    rcases lastText? tree.current (schemaWrites options made) place with _ | text
    · have hnode := node?_cleaned hclean hmeets place
      dsimp only
      rw [hnode]
      split
      · next hgone => simp [hgone]
      · next hleft => simp only [hleft, not_false_eq_true, true_and]
    · rfl
  · have hconfined : Confined (fun _ => True) (fun place => ∃ source ∈ made,
        place ∈ (options.schemaPath source.1).route cleaned.current) cleaned
          (after (Run.generateFiles options before) cleaned) := by
      refine generateFiles_confined fun source hsource => ?_
      rw [← hmade.sources] at hsource
      obtain ⟨found, hfound, rfl⟩ := List.mem_map.1 hsource
      exact ⟨trivial, fun entered hentered => ⟨found, hfound, hentered⟩⟩
    rw [after_of_ran hbefore, hcurrent] at hconfined
    rw [hconfined.elsewhere place fun hmem => ?_, node?_cleaned hclean hmeets]
    obtain ⟨source, hsource, hentered⟩ := hmem
    exact helsewhere source hsource hentered

/-- If there is no code for a source file, and there is for those before it, the
run stops there. It reports why there is no code, and leaves behind the schema
files of the source files before. -/
theorem run_aborts (htree : tree.WellFormed) (hrooted : tree.Rooted)
    (hseparate : Separate options tree.current)
    (hmeets : options.clean = true → tree.Meets options.baseDir)
    (hclean : Ran (Run.cleanOutput options) tree () cleaned)
    (hinputs : inputPaths options cleaned = before ++ input :: behind)
    (hbefore : Ran (Run.generateFiles options before) cleaned files later)
    (hfails : codeOf options tree input = .error error) :
    outcome options tree = (.error error, later) ∧
      ∃ made, made.map Prod.fst = before ∧ Aborted options tree made later := by
  have hkept := cleanOutput_cleaned hclean
  have hwell := hkept.wellFormed htree
  have hpaved := (rooted_of_cleanOutput hrooted hclean).paved
    (options.inputDir.searched.place cleaned.current)
  have hseparateKept : Separate options cleaned.current := hkept.current ▸ hseparate
  have hinput : input ∈ inputPaths options cleaned := by
    rw [hinputs]
    exact List.mem_append_right _ List.mem_cons_self
  have hsubset : before ⊆ inputPaths options cleaned := by
    rw [hinputs]
    exact List.subset_append_left _ _
  obtain ⟨made, hmade⟩ := generateFiles_ok hbefore
  have hcode := code_of_generated hwell hpaved hseparateKept hmade hsubset
  have hfailsLater : codeOf options later input = .error error := by
    rw [codeOf_generated hwell hpaved hseparateKept hmade hsubset hinput,
      codeOf_cleaned htree hrooted hclean hinput, hfails]
  refine ⟨run_failed hclean hinputs hbefore hfailsLater, made, hmade.sources,
    aborted_of_generated hclean hmeets hbefore hmade fun source hsource => ?_⟩
  rw [← codeOf_cleaned htree hrooted hclean
    (hsubset (hmade.sources ▸ List.mem_map_of_mem hsource))]
  exact hcode source hsource

/-- Everything in the tree stands in a directory. -/
theorem rooted_broken : brokenTree.Rooted := WellFormed.rooted (by decide +kernel) (by decide +kernel)

/-- There is no code for the second source file, wherever output goes. -/
theorem codeOf_broken (outputDir : Path) :
    ∃ error, codeOf (brokenOptions outputDir) brokenTree ⟨"src/b.ts"⟩ = .error error := by
  have hnone : (codeOf (brokenOptions ⟨"out"⟩) brokenTree ⟨"src/b.ts"⟩).toBool = false := by
    decide +kernel
  have hsame : codeOf (brokenOptions outputDir) brokenTree ⟨"src/b.ts"⟩ =
      codeOf (brokenOptions ⟨"out"⟩) brokenTree ⟨"src/b.ts"⟩ := by
    simp only [codeOf, brokenOptions]
  rw [hsame]
  rcases hcode : codeOf (brokenOptions ⟨"out"⟩) brokenTree ⟨"src/b.ts"⟩ with error | code
  · exact ⟨error, rfl⟩
  · rw [hcode] at hnone
    cases hnone

/-- A run leaves the schema file of the first source file, and nothing of older
output of its target. -/
theorem run_aborts_broken : ∃ error later,
    outcome (brokenOptions ⟨"out"⟩) brokenTree = (.error error, later) ∧
      codeOf (brokenOptions ⟨"out"⟩) brokenTree ⟨"src/b.ts"⟩ = .error error ∧
      (∃ code, codeOf (brokenOptions ⟨"out"⟩) brokenTree ⟨"src/a.ts"⟩ = .ok code ∧
        later.node? ["out", "zod", "types", "a.ts"] = some (.file (.text code))) ∧
      later.node? ["out", "zod", "a"] = none ∧ later.node? ["out", "zod", "old.ts"] = none := by
  have hseparate : Separate (brokenOptions ⟨"out"⟩) brokenTree.current :=
    ⟨by decide +kernel, by decide +kernel⟩
  obtain ⟨_, hclean⟩ := ran_after
    (Run.cleanOutput (brokenOptions ⟨"out"⟩) : Run.RunM (StateM FileTree) Unit) brokenTree
    (by decide +kernel)
  have hinputs : inputPaths (brokenOptions ⟨"out"⟩)
      (after (Run.cleanOutput (brokenOptions ⟨"out"⟩)) brokenTree) =
        [⟨"src/a.ts"⟩] ++ ⟨"src/b.ts"⟩ :: [] := by decide +kernel
  obtain ⟨files, hbefore⟩ := ran_after
    (Run.generateFiles (brokenOptions ⟨"out"⟩) [⟨"src/a.ts"⟩])
    (after (Run.cleanOutput (brokenOptions ⟨"out"⟩)) brokenTree) (by decide +kernel)
  obtain ⟨error, hfails⟩ := codeOf_broken ⟨"out"⟩
  obtain ⟨hrun, made, hmade, haborted⟩ := run_aborts (by decide +kernel) rooted_broken
    hseparate (fun _ => .inl (by decide +kernel)) hclean hinputs hbefore hfails
  obtain ⟨⟨path, code⟩, rfl, hpath⟩ := List.map_eq_singleton_iff.1 hmade
  obtain rfl : path = ⟨"src/a.ts"⟩ := hpath
  have hplace : ((brokenOptions ⟨"out"⟩).schemaPath ⟨"src/a.ts"⟩).place brokenTree.current =
      (["out", "zod", "types", "a.ts"] : Place) := by decide +kernel
  have hlast : lastText? brokenTree.current
      (schemaWrites (brokenOptions ⟨"out"⟩) [(⟨"src/a.ts"⟩, code)])
        ["out", "zod", "types", "a.ts"] = some code := by
    rw [← hplace]
    exact (lastText?_singleton ((brokenOptions ⟨"out"⟩).schemaPath ⟨"src/a.ts"⟩, code)).trans
      (if_pos rfl)
  have hgone : ∀ place, (brokenOptions ⟨"out"⟩).baseDir.place brokenTree.current <+: place →
      place ∉ ((brokenOptions ⟨"out"⟩).schemaPath ⟨"src/a.ts"⟩).route brokenTree.current →
        (after (Run.generateFiles (brokenOptions ⟨"out"⟩) [⟨"src/a.ts"⟩])
          (after (Run.cleanOutput (brokenOptions ⟨"out"⟩)) brokenTree)).node? place = none := by
    intro place hbelow hroute
    rw [haborted.elsewhere place, if_pos ⟨rfl, hbelow⟩]
    intro source hsource
    obtain rfl := List.mem_singleton.1 hsource
    exact hroute
  have hcode := haborted.code (⟨"src/a.ts"⟩, code) List.mem_cons_self
  refine ⟨error, _, hrun, hfails, ⟨code, hcode, ?_⟩, ?_, ?_⟩
  · rw [haborted.file, hlast]
  · exact hgone ["out", "zod", "a"] (by decide +kernel) (by decide +kernel)
  · exact hgone ["out", "zod", "old.ts"] (by decide +kernel) (by decide +kernel)

/-- If the base directory is spelled through a directory that is missing, older
output is left behind. -/
theorem not_run_aborts_through_missing :
    ¬∀ options tree cleaned later before input behind files error, tree.WellFormed → tree.Rooted →
      Separate options tree.current → Ran (Run.cleanOutput options) tree () cleaned →
        inputPaths options cleaned = before ++ input :: behind →
          Ran (Run.generateFiles options before) cleaned files later →
            codeOf options tree input = .error error →
              outcome options tree = (.error error, later) ∧
                ∃ made, made.map Prod.fst = before ∧ Aborted options tree made later := by
  intro h
  have hseparate : Separate (brokenOptions ⟨"missing/../out"⟩) brokenTree.current :=
    ⟨by decide +kernel, by decide +kernel⟩
  obtain ⟨_, hclean⟩ := ran_after
    (Run.cleanOutput (brokenOptions ⟨"missing/../out"⟩) : Run.RunM (StateM FileTree) Unit)
    brokenTree (by decide +kernel)
  have hinputs : inputPaths (brokenOptions ⟨"missing/../out"⟩)
      (after (Run.cleanOutput (brokenOptions ⟨"missing/../out"⟩)) brokenTree) =
        [⟨"src/a.ts"⟩] ++ ⟨"src/b.ts"⟩ :: [] := by decide +kernel
  obtain ⟨files, hbefore⟩ := ran_after
    (Run.generateFiles (brokenOptions ⟨"missing/../out"⟩) [⟨"src/a.ts"⟩])
    (after (Run.cleanOutput (brokenOptions ⟨"missing/../out"⟩)) brokenTree) (by decide +kernel)
  obtain ⟨error, hfails⟩ := codeOf_broken ⟨"missing/../out"⟩
  obtain ⟨-, made, hmade, haborted⟩ := h _ _ _ _ _ _ _ _ _ (by decide +kernel) rooted_broken
    hseparate hclean hinputs hbefore hfails
  obtain ⟨⟨path, code⟩, rfl, hpath⟩ := List.map_eq_singleton_iff.1 hmade
  obtain rfl : path = ⟨"src/a.ts"⟩ := hpath
  have hgone := haborted.elsewhere ["out", "zod", "old.ts"] fun source hsource => by
    obtain rfl := List.mem_singleton.1 hsource
    have hroute : (["out", "zod", "old.ts"] : Place) ∉
        ((brokenOptions ⟨"missing/../out"⟩).schemaPath ⟨"src/a.ts"⟩).route brokenTree.current := by
      decide +kernel
    exact hroute
  have hbelow : (brokenOptions ⟨"missing/../out"⟩).baseDir.place brokenTree.current <+:
      ["out", "zod", "old.ts"] := by decide +kernel
  rw [if_pos ⟨rfl, hbelow⟩] at hgone
  have hkept : (after (Run.generateFiles (brokenOptions ⟨"missing/../out"⟩) [⟨"src/a.ts"⟩])
      (after (Run.cleanOutput (brokenOptions ⟨"missing/../out"⟩)) brokenTree)).node?
        ["out", "zod", "old.ts"] ≠ none := by decide +kernel
  exact hkept hgone

end InterfaceSchema
