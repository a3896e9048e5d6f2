import InterfaceSchema.Proofs.Disk.Confining
import InterfaceSchema.Proofs.Disk.Listing
import InterfaceSchema.Proofs.Run.Paths

/-!
# Runs that stay in their directory

A run cleans below its base directory only, and the files it gives a text lie
there too, wherever it stops. The one way out is a barrel whose source file has
a stem of two dots: this barrel lies right above the base directory.
-/

namespace InterfaceSchema

open FileTree Disk

variable {options : RunOptions} {touched part : Place → Prop} {tree cleaned : FileTree}
  {inputs : List Path} {input : Path} {list : List Text} {path : Path} {current place : Place}

section Phases

/-- Steps on the disk as steps of a run. -/
theorem after_onDisk {α : Type} (action : DiskM (StateM FileTree) α) (tree : FileTree) :
    after (Run.onDisk action) tree = after action tree := by
  simp only [after, Run.onDisk, ExceptT.mk, ExceptT.run, bind, StateT.bind, Id.run]
  rcases action tree with ⟨error | value, middle⟩ <;> rfl

/-- Generating the schema file of a source file. -/
theorem generateFile_confined (hopen : Open touched part tree.current (options.schemaPath input)) :
    Confined touched part tree (after (Run.generateFile options input) tree) := by
  rw [Run.generateFile]
  refine confined_bind ?_ fun source middle _ hmiddle => ?_
  · rw [after_onDisk, Disk.read, after_step]
    exact .refl _ _ tree
  · split
    · exact .refl _ _ middle
    · next code _ =>
      refine confined_bind ?_ fun _ last _ _ => .refl _ _ last
      rw [after_onDisk]
      exact update_confined (hmiddle.current ▸ hopen) code

/-- Generating the schema files of source files. -/
theorem generateFiles_confined
    (hopen : ∀ input ∈ inputs, Open touched part tree.current (options.schemaPath input)) :
    Confined touched part tree (after (Run.generateFiles options inputs) tree) := by
  induction inputs generalizing tree with
  | nil => exact .refl _ _ tree
  | cons input rest ih =>
    rw [Run.generateFiles]
    refine confined_bind (generateFile_confined (hopen input List.mem_cons_self))
      fun _ middle _ hmiddle => ?_
    refine confined_bind (ih fun other hother => ?_) fun _ last _ _ => .refl _ _ last
    exact hmiddle.current ▸ hopen other (List.mem_cons_of_mem _ hother)

namespace Barrel

variable {directory : Path} {specifier : Text} {names : List Text}

/-- Writing barrels of several kinds. -/
theorem writeKinds_confined {kinds : List BarrelKind}
    (hopen : ∀ kind ∈ kinds, Open touched part tree.current (directory.join ⟨kind.fileName⟩)) :
    Confined touched part tree (after (writeKinds directory specifier names kinds :
      DiskM (StateM FileTree) BarrelSummary) tree) := by
  induction kinds generalizing tree with
  | nil => exact .refl _ _ tree
  | cons kind rest ih =>
    rw [writeKinds]
    refine confined_bind ?_ fun _ middle _ hmiddle => ?_
    · rw [writeKind]
      dsimp only
      split
      · exact .refl _ _ tree
      · exact confined_bind (update_confined (hopen kind List.mem_cons_self) _)
          fun _ last _ _ => .refl _ _ last
    · refine confined_bind (ih fun other hother => ?_) fun _ last _ _ => .refl _ _ last
      exact hmiddle.current ▸ hopen other (List.mem_cons_of_mem _ hother)

/-- Writing the barrels for a source file. -/
theorem writeFor_confined
    (hopen : ∀ kind, Open touched part tree.current (options.barrelPath input kind)) :
    Confined touched part tree (after (writeFor options.baseDir options.schemaDir options.inputDir
      input : DiskM (StateM FileTree) BarrelSummary) tree) := by
  rw [writeFor]
  refine confined_bind ?_ fun found middle _ hmiddle => ?_
  · rw [after_lift]
    exact .refl _ _ tree
  · split
    · refine confined_bind ?_ fun content last _ hlast => ?_
      · rw [Disk.read, after_step]
        exact .refl _ _ middle
      · split
        · exact .refl _ _ last
        · next stem hstem =>
          refine writeKinds_confined fun kind _ => ?_
          have hkind := hopen kind
          rw [RunOptions.barrelPath, RunOptions.barrelDir, hstem] at hkind
          rw [hlast.current, hmiddle.current]
          exact hkind
    · exact .refl _ _ middle

/-- Writing the barrels for source files. -/
theorem writeAll_confined (hopen : ∀ input ∈ inputs, ∀ kind,
      Open touched part tree.current (options.barrelPath input kind)) :
    Confined touched part tree (after (writeAll options.baseDir options.schemaDir options.inputDir
      inputs : DiskM (StateM FileTree) BarrelSummary) tree) := by
  induction inputs generalizing tree with
  | nil => exact .refl _ _ tree
  | cons input rest ih =>
    rw [writeAll]
    refine confined_bind (writeFor_confined (hopen input List.mem_cons_self))
      fun _ middle _ hmiddle => ?_
    refine confined_bind (ih fun other hother => ?_) fun _ last _ _ => .refl _ _ last
    exact hmiddle.current ▸ hopen other (List.mem_cons_of_mem _ hother)

end Barrel

/-- Completing the specifiers in files. -/
theorem Specifier.completeFiles_confined {paths : List Path}
    (hopen : ∀ path ∈ paths, Open touched part tree.current path) :
    Confined touched part tree (after (completeFiles paths : DiskM (StateM FileTree) (List Path))
      tree) := by
  induction paths generalizing tree with
  | nil => exact .refl _ _ tree
  | cons path rest ih =>
    have hrest : ∀ later, Confined touched part tree later →
        ∀ other ∈ rest, Open touched part later.current other := fun later hlater other hother =>
      hlater.current ▸ hopen other (List.mem_cons_of_mem _ hother)
    rw [completeFiles]
    refine confined_bind ?_ fun content middle _ hmiddle => ?_
    · rw [Disk.read, after_step]
      exact .refl _ _ tree
    · split
      · exact ih (hrest middle hmiddle)
      · next fixed _ =>
        refine confined_bind
          (overwrite_confined (hmiddle.current ▸ hopen path List.mem_cons_self) fixed)
          fun _ next _ hnext => ?_
        exact confined_bind (ih (hrest next (hmiddle.trans hnext)))
          fun _ last _ _ => .refl _ _ last

end Phases

/-- What a run may touch, and the part in which it may make anything, hold its
base directory and what leads there. -/
structure Allows (options : RunOptions) (touched part : Place → Prop) (current : Place) :
    Prop where
  base : ∀ place, options.baseDir.place current <+: place → touched place ∧ part place
  route : ∀ entered ∈ options.baseDir.route current, part entered

/-- A run may write its output. -/
def Outputs (options : RunOptions) (touched part : Place → Prop) (tree : FileTree) : Prop :=
  ∀ list path, IsSource tree options.inputDir list → IsOutputPath options list path →
    Open touched part tree.current path

section Run

/-- Completing the specifiers in all output. -/
theorem completeOutput_confined (htree : tree.WellFormed)
    (hallows : Allows options touched part tree.current) :
    Confined touched part tree (after (Run.completeOutput options) tree) := by
  rw [Run.completeOutput]
  split
  · refine confined_bind ?_ fun _ last _ _ => .refl _ _ last
    rw [after_onDisk, after_within, Specifier.completeBelow]
    refine confined_bind ?_ fun paths middle hpaths hmiddle => ?_
    · rw [after_lift]
      exact .refl _ _ tree
    · obtain ⟨rfl, rfl⟩ := sourceFiles_ok hpaths
      refine confined_bind (Specifier.completeFiles_confined fun path hpath => ?_)
        fun _ last _ _ => .refl _ _ last
      obtain ⟨list, hlist, rfl⟩ := List.mem_map.1 hpath
      have hdown := (isSource_of_mem_sources htree hlist).leadDown htree
      have hsearched := searched_eq_self options.baseDir_text
      constructor
      · rw [place_sourcePath _ _ hdown, hsearched]
        exact (hallows.base _ (List.prefix_append _ _)).1
      · intro entered hentered
        rw [Path.route, names_sourcePath _ hdown, Path.start, isAbsolute_sourcePath _ hdown,
          route_countedNames, hsearched, List.mem_append] at hentered
        have hup : "..".toList ∉ list := fun hmem => (hdown.isName _ hmem).ne_up rfl
        exact hentered.elim (hallows.route entered) fun hmem =>
          (hallows.base _ (Place.prefix_of_mem_route hup hmem)).2
  · exact .refl _ _ tree

/-- Generating all output. -/
theorem generateAll_confined (hcleaned : cleaned.WellFormed)
    (hallows : Allows options touched part cleaned.current)
    (houtputs : Outputs options touched part cleaned) :
    Confined touched part cleaned
      (after (Run.generateAll options (inputPaths options cleaned)) cleaned) := by
  have hopen : ∀ input ∈ inputPaths options cleaned,
      Open touched part cleaned.current (options.schemaPath input) ∧
        ∀ kind, Open touched part cleaned.current (options.barrelPath input kind) := by
    intro input hinput
    obtain ⟨list, hlist, rfl⟩ := List.mem_map.1 hinput
    have hsource := isSource_of_mem_sources hcleaned hlist
    exact ⟨houtputs list _ hsource .schema, fun kind => houtputs list _ hsource (.barrel kind)⟩
  rw [Run.generateAll]
  refine confined_bind (generateFiles_confined fun input hinput => (hopen input hinput).1)
    fun _ generated _ hgenerated => ?_
  refine confined_bind ?_ fun _ written _ hwritten => ?_
  · rw [after_onDisk, after_within]
    exact Barrel.writeAll_confined fun input hinput kind =>
      hgenerated.current ▸ (hopen input hinput).2 kind
  · refine confined_bind ?_ fun _ last _ _ => .refl _ _ last
    have hgrows := hgenerated.trans hwritten
    exact completeOutput_confined (hgrows.wellFormed hcleaned) (hgrows.current ▸ hallows)

/-- Cleaning removes the base directory or nothing, whether or not it
succeeds. -/
theorem after_cleanOutput (options : RunOptions) (tree : FileTree) :
    after (Run.cleanOutput options) tree = tree ∨
      after (Run.cleanOutput options) tree =
        tree.remove (options.baseDir.place tree.current) := by
  rw [Run.cleanOutput]
  split
  · have hthere : Ran (ExceptT.lift (Disk.isThere options.baseDir) :
        Run.RunM (StateM FileTree) Bool) tree (tree.find options.baseDir).toBool tree :=
      ran_lift.2 rfl
    rw [after_bind_of_ran hthere]
    split
    · have hafter : after (Disk.removeDirectory options.baseDir) tree =
          (tree.settle (tree.removeDir options.baseDir)).2 := after_step _ _ tree
      rw [after_onDisk, hafter]
      rcases hremove : tree.removeDir options.baseDir with cause | later
      · exact .inl rfl
      · have hran : Ran (Disk.removeDirectory options.baseDir) tree () later :=
          ran_step.2 (congrArg tree.settle hremove)
        exact .inr (removeDirectory_ok hran)
    · exact .inl rfl
  · exact .inl rfl

/-- A run removes the base directory or nothing, and then stays within what it
is allowed to touch, wherever it stops. -/
theorem run_confined (htree : tree.WellFormed)
    (hallows : Allows options touched part tree.current)
    (houtputs : Outputs options touched part tree) :
    ∃ cleaned, (cleaned = tree ∨ cleaned = tree.remove (options.baseDir.place tree.current)) ∧
      Confined touched part cleaned (outcome options tree).2 := by
  refine ⟨after (Run.cleanOutput options) tree, after_cleanOutput options tree, ?_⟩
  have hrun : (outcome options tree).2 = after (Run.run options) tree := rfl
  rw [hrun, Run.run]
  by_cases hran : ∃ cleaned, Ran (Run.cleanOutput options) tree () cleaned
  · obtain ⟨cleaned, hclean⟩ := hran
    have hkept := cleanOutput_cleaned hclean
    have hcleaned := hkept.wellFormed htree
    rw [after_bind_of_ran hclean, after_of_ran hclean]
    refine confined_bind ?_ fun inputs middle hinputs _ => ?_
    · rw [after_lift]
      exact .refl _ _ cleaned
    · obtain ⟨rfl, rfl⟩ := sourceFiles_ok hinputs
      split
      · exact .refl _ _ middle
      · refine generateAll_confined hcleaned (hkept.current ▸ hallows) fun list path hlist => ?_
        rw [hkept.current]
        refine houtputs list path ⟨?_, hlist.ending⟩
        obtain ⟨content, hnode⟩ := hlist.file
        exact ⟨content, node?_of_cleaned hclean (hkept.current ▸ hnode)⟩
  · rw [after_bind_of_not_ran fun _ cleaned hclean => hran ⟨cleaned, hclean⟩]
    exact .refl _ _ _

end Run

/-- Where a run writes outside its base directory: right above it the barrels of
a source file whose stem is two dots, and, if no input directory is given, the
source files themselves. -/
def Strays (options : RunOptions) (tree : FileTree) (place : Place) : Prop :=
  ∃ list, IsSource tree options.inputDir list ∧
    (stemName list = "..".toList ∧ (∃ kind : BarrelKind,
        (options.baseDir.place tree.current).dropLast ++ [kind.fileName] = place) ∨
      options.inputDir.text = [] ∧ list = place)

/-- Without an input directory a source file is seen from the root. -/
theorem relativeInput_nowhere (h : LeadDown list) :
    relativeInput (sourcePath ⟨[]⟩ list) ⟨[]⟩ = sourcePath ⟨[]⟩ list := by
  have hcounts : ∀ name ∈ list, (Path.component? name).isSome := by
    intro name hname
    obtain ⟨component, hsome, -⟩ :=
      component?_isSome (h.isName name hname).ne_nil (h.isName name hname).ne_here
    rw [hsome]
    rfl
  have hsplit : (sourcePath ⟨[]⟩ list).split = (.root, list) := split_sourcePath ⟨[]⟩ h
  have hrelative : (sourcePath ⟨[]⟩ list).relativeTo? ⟨[]⟩ =
      some (Path.unsplit .root (Path.trimPieces list)) := by
    rw [Path.relativeTo?, hsplit]
    rfl
  rw [relativeInput, hrelative, trimPieces_eq_self hcounts]
  rfl

/-- Without an input directory a source file takes the place of its own schema
file. -/
theorem schemaPath_of_nowhere (hempty : options.inputDir.text = []) (h : LeadDown list) :
    options.schemaPath (sourcePath options.inputDir list) = sourcePath options.inputDir list := by
  have hnowhere : options.inputDir = ⟨[]⟩ := congrArg Path.mk hempty
  have habs : (sourcePath ⟨[]⟩ list).isAbsolute = true := isAbsolute_sourcePath ⟨[]⟩ h
  rw [RunOptions.schemaPath, hnowhere, relativeInput_nowhere h, Path.join, if_pos habs]

/-- Output lies below the base directory or strays. -/
theorem IsOutputPath.prefix_or_strays (h : IsOutputPath options list path)
    (htree : tree.WellFormed) (hlist : IsSource tree options.inputDir list) :
    options.baseDir.place tree.current <+: path.place tree.current ∨
      Strays options tree (path.place tree.current) := by
  have hdown := hlist.leadDown htree
  cases h with
  | schema =>
    by_cases hempty : options.inputDir.text = []
    · right
      rw [schemaPath_of_nowhere hempty hdown, place_sourcePath _ _ hdown, Path.searched, hempty]
      exact ⟨list, hlist, .inr ⟨hempty, rfl⟩⟩
    · left
      rw [RunOptions.place_schemaPath_seen hempty _ hdown]
      exact List.prefix_append _ _
  | barrel kind =>
    have hplace := (RunOptions.leads_barrelPath options hdown kind).place tree.current
    by_cases hstem : stemName list = "..".toList
    · right
      rw [hplace, hstem]
      exact ⟨list, hlist, .inl ⟨hstem, kind, rfl⟩⟩
    · left
      rw [hplace, Place.follow_of_up_notMem (by simpa [eq_comm] using hstem), List.append_assoc]
      exact List.prefix_append _ _

/-- A run leaves the files outside its base directory as they are, whether or
not it succeeds, but for those that stray. -/
theorem run_stays_inside (htree : tree.WellFormed)
    (hplace : ¬options.baseDir.place tree.current <+: place)
    (hstrays : ¬Strays options tree place) (content : Content) :
    (outcome options tree).2.node? place = some (.file content) ↔
      tree.node? place = some (.file content) := by
  have hallows : Allows options
      (fun other => options.baseDir.place tree.current <+: other ∨ Strays options tree other)
      (fun _ => True) tree.current :=
    ⟨fun _ hbelow => ⟨.inl hbelow, trivial⟩, fun _ _ => trivial⟩
  obtain ⟨cleaned, hcleaned, hconfined⟩ := run_confined htree hallows
    fun list path hlist houtput => ⟨houtput.prefix_or_strays htree hlist, fun _ _ => trivial⟩
  have hkept : cleaned.node? place = tree.node? place := by
    rcases hcleaned with rfl | rfl
    · rfl
    · rw [node?_remove, if_neg fun hboth => hplace hboth.1]
  rw [hconfined.untouched place content (not_or.2 ⟨hplace, hstrays⟩), hkept]

/-- A tree with older output of two targets, and two source files. No schema
can be generated from the second one. -/
def brokenTree : FileTree where
  nodes := [
    (["out"], .directory), (["out", "types"], .directory),
    (["out", "types", "kept.ts"], .file (.text "export type Kept = string\n")),
    (["out", "zod"], .directory),
    (["out", "zod", "old.ts"], .file (.text "export const Old = 1\n")),
    (["src"], .directory),
    (["src", "a.ts"], .file (.text "export interface A \x7b b: string \x7d")),
    (["src", "b.ts"], .file (.text "export type B = () => void"))]
  current := []

/-- The options of a run on this tree. -/
def brokenOptions (outputDir : Path) : RunOptions where
  target := .zod
  inputDir := ⟨"src"⟩
  outputDir := outputDir
  clean := true
  fixImports := true

/-- A run that fails leaves the output of another target as it is. -/
theorem run_stays_inside_broken :
    (outcome (brokenOptions ⟨"out"⟩) brokenTree).1.toBool = false ∧
      (outcome (brokenOptions ⟨"out"⟩) brokenTree).2.node? ["out", "types", "kept.ts"] =
        some (.file (.text "export type Kept = string\n")) := by
  have hwell : brokenTree.WellFormed := by decide +kernel
  have hfind : brokenTree.find (Path.searched ⟨"src"⟩) = .ok (["src"], .directory) := by
    decide +kernel
  have hstem : ∀ list ∈ sources brokenTree ⟨"src"⟩, stemName list ≠ "..".toList := by
    decide +kernel
  refine ⟨by decide +kernel, ?_⟩
  refine (run_stays_inside hwell (by decide +kernel) ?_ _).2 (by decide +kernel)
  rintro ⟨list, hlist, ⟨hup, -⟩ | ⟨hempty, -⟩⟩
  · exact hstem list ((mem_sources hwell ⟨_, hfind⟩).2 hlist) hup
  · cases hempty

/-- A tree with a source file whose stem is two dots. -/
def strayTree : FileTree where
  nodes := [
    (["out"], .directory),
    (["out", "index.ts"], .file (.text "export type Kept = string\n")),
    (["src"], .directory),
    (["src", "...ts"], .file (.text "export interface A \x7b b: string \x7d"))]
  current := []

/-- The barrel for this source file replaces a file outside the base
directory. -/
theorem not_run_stays_inside :
    ¬∀ options tree place content, tree.WellFormed → options.inputDir.text ≠ [] →
      ¬options.baseDir.place tree.current <+: place →
        ((outcome options tree).2.node? place = some (.file content) ↔
          tree.node? place = some (.file content)) := by
  intro h
  have hkept := (h (brokenOptions ⟨"out"⟩) strayTree ["out", "index.ts"]
    (.text "export type Kept = string\n") (by decide +kernel) (by decide) (by decide +kernel)).2
    (by decide +kernel)
  have hreplaced : (outcome (brokenOptions ⟨"out"⟩) strayTree).2.node? ["out", "index.ts"] ≠
      some (.file (.text "export type Kept = string\n")) := by decide +kernel
  exact hreplaced hkept

end InterfaceSchema
