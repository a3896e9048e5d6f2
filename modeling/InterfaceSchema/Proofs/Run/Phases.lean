import InterfaceSchema.Proofs.Disk.Sources
import InterfaceSchema.Proofs.Disk.Writing
import InterfaceSchema.Run.Generation

/-!
# The phases of a run

A run that succeeds cleans, generates, writes barrels and completes
specifiers, and each of these phases says what it leaves behind: the files it
has saved, in order, and where their texts come from. A phase reads what
earlier phases and its own earlier steps have left, so a text is known to come
from the tree at the start of the phase if nothing is saved in its place.
-/

namespace InterfaceSchema

open FileTree Disk

namespace RunOptions

/-- The schema file of a source file. -/
def schemaPath (options : RunOptions) (input : Path) : Path :=
  options.schemaDir.join (relativeInput input options.inputDir)

/-- The directory for the barrels of a source file. -/
def barrelDir (options : RunOptions) (input : Path) : Path :=
  options.baseDir.join ⟨input.fileStem?.getD []⟩

/-- A barrel of a source file. -/
def barrelPath (options : RunOptions) (input : Path) (kind : BarrelKind) : Path :=
  (options.barrelDir input).join ⟨kind.fileName⟩

/-- A text as a run leaves it at its end. -/
def finished (options : RunOptions) (text : Text) : Text :=
  if options.fixImports then (Specifier.complete? text).getD text else text

end RunOptions

namespace Barrel

/-- The barrel of some names, unless none of them belongs into it. -/
def kindWrite? (directory : Path) (specifier : Text) (names : List Text) (kind : BarrelKind) :
    Option (Path × Text) :=
  if (kind.select names).isEmpty then none
  else some (directory.join ⟨kind.fileName⟩, render (kind.select names) specifier)

/-- The barrels for a source file whose schema file holds a text. -/
def barrelWrites (options : RunOptions) (source : Path × Text) : List (Path × Text) :=
  BarrelKind.all.filterMap (kindWrite? (options.barrelDir source.1)
    (Specifier.ofPath (options.barrelDir source.1) (options.schemaPath source.1))
    (exports source.2))

/-- A barrel for a source file. -/
theorem mem_barrelWrites {options : RunOptions} {source write : Path × Text} :
    write ∈ barrelWrites options source ↔ ∃ kind : BarrelKind, kind.select (exports source.2) ≠ [] ∧
      write = (options.barrelPath source.1 kind, render (kind.select (exports source.2))
        (Specifier.ofPath (options.barrelDir source.1) (options.schemaPath source.1))) := by
  rw [barrelWrites, List.mem_filterMap]
  constructor
  · rintro ⟨kind, -, hwrite⟩
    rw [kindWrite?] at hwrite
    split at hwrite
    · cases hwrite
    · next hne =>
      exact ⟨kind, fun hnil => hne (by rw [hnil]; rfl), (Option.some.inj hwrite).symm⟩
  · rintro ⟨kind, hne, rfl⟩
    refine ⟨kind, by cases kind <;> simp [BarrelKind.all], ?_⟩
    rw [kindWrite?, if_neg (by simpa using hne)]
    rfl

end Barrel

section Cleaning

variable {options : RunOptions} {tree later : FileTree}

/-- Steps on the disk as steps of a run. -/
theorem ran_onDisk {α : Type} {action : DiskM (StateM FileTree) α} {result : α} :
    Ran (Run.onDisk action) tree result later ↔ Ran action tree result later := by
  simp only [Ran, Run.onDisk, ExceptT.mk, ExceptT.run, bind, StateT.bind, Id.run]
  rcases action tree with ⟨error | value, middle⟩ <;> simp [pure_apply]

/-- A tree from which nothing was removed that does not lie below a place. -/
structure Cleaned (place : Place) (tree later : FileTree) : Prop where
  current : later.current = tree.current
  elsewhere : ∀ other, ¬place <+: other → later.node? other = tree.node? other
  wellFormed : tree.WellFormed → later.WellFormed

/-- A path that leads to what stands at its place, or has nothing there. -/
def FileTree.Reaches (tree : FileTree) (path : Path) : Prop :=
  (tree.find path).toBool = true ∨
    ∀ below content, tree.node? (path.place tree.current ++ below) ≠ some (.file content)

/-- A path that leads to what stands at its place, or has nothing there at
all. -/
def FileTree.Meets (tree : FileTree) (path : Path) : Prop :=
  (tree.find path).toBool = true ∨
    ∀ below, tree.node? (path.place tree.current ++ below) = none

/-- Where nothing is there is no file. -/
theorem FileTree.Meets.reaches {path : Path} (h : tree.Meets path) : tree.Reaches path :=
  h.imp_right fun hnone below content hnode => by
    rw [hnone below] at hnode
    cases hnode

/-- Cleaning removes older output if it should and can. -/
theorem cleanOutput_ok {result : Unit} (h : Ran (Run.cleanOutput options) tree result later) :
    later = if options.clean ∧ (tree.find options.baseDir).toBool
      then tree.remove (options.baseDir.place tree.current) else tree := by
  rw [Run.cleanOutput] at h
  split at h
  · next hclean =>
    obtain ⟨there, middle, hthere, hrest⟩ := ran_bind.1 h
    obtain ⟨rfl, rfl⟩ := Prod.mk.inj (ran_lift.1 hthere)
    split at hrest
    · next hfound =>
      rw [if_pos ⟨hclean, hfound⟩]
      exact removeDirectory_ok (ran_onDisk.1 hrest)
    · next hfound =>
      rw [if_neg fun hboth => hfound hboth.2]
      exact (ran_pure.1 hrest).2.symm
  · next hclean =>
    rw [if_neg fun hboth => hclean hboth.1]
    exact (ran_pure.1 h).2.symm

/-- Cleaning removes nothing but older output. -/
theorem cleanOutput_cleaned {result : Unit} (h : Ran (Run.cleanOutput options) tree result later) :
    Cleaned (options.baseDir.place tree.current) tree later := by
  rw [cleanOutput_ok h]
  split
  · refine ⟨rfl, fun other hother => ?_, fun htree => htree.remove _⟩
    rw [node?_remove, if_neg fun hboth => hother hboth.1]
  · exact ⟨rfl, fun _ _ => rfl, fun htree => htree⟩

/-- Cleaning fails if a file stands in the place of the base directory. -/
theorem not_file_of_cleanOutput {result : Unit} {place : Place} {content : Content}
    (h : Ran (Run.cleanOutput options) tree result later) (hclean : options.clean = true) :
    tree.find options.baseDir ≠ .ok (place, .file content) := by
  intro hfind
  rw [Run.cleanOutput, if_pos hclean] at h
  obtain ⟨there, middle, hthere, hrest⟩ := ran_bind.1 h
  obtain ⟨rfl, rfl⟩ := Prod.mk.inj (ran_lift.1 hthere)
  rw [hfind, if_pos (by rfl)] at hrest
  have hremove : tree.removeDir options.baseDir = .ok later :=
    settle_ok (ran_step.1 (ran_onDisk.1 hrest))
  rw [FileTree.removeDir, hfind] at hremove
  cases hremove

/-- What is left after cleaning was there before. -/
theorem node?_of_cleaned {result : Unit} {place : Place} {node : Node}
    (h : Ran (Run.cleanOutput options) tree result later) (hnode : later.node? place = some node) :
    tree.node? place = some node := by
  rw [cleanOutput_ok h] at hnode
  split at hnode
  · rw [node?_remove] at hnode
    split at hnode
    · cases hnode
    · exact hnode
  · exact hnode

/-- Cleaning leaves no file below the base directory. -/
theorem cleanOutput_below {result : Unit} (h : Ran (Run.cleanOutput options) tree result later)
    (hclean : options.clean = true) (hreaches : tree.Reaches options.baseDir) (below : List Text)
    (content : Content) :
    later.node? (options.baseDir.place tree.current ++ below) ≠ some (.file content) := by
  rw [cleanOutput_ok h]
  split
  · rw [node?_remove]
    split
    · simp
    · next hkept =>
      -- only the root is left alone
      have hroot : options.baseDir.place tree.current ++ below = [] := by
        simpa using hkept
      simp [hroot, node?]
  · next hleft =>
    have hfind : (tree.find options.baseDir).toBool ≠ true := fun hfound => hleft ⟨hclean, hfound⟩
    exact hreaches.resolve_left hfind below content

end Cleaning

section Generating

variable {options : RunOptions} {tree later : FileTree} {inputs : List Path} {input : Path}

/-- Writing the schema file of a source file. -/
theorem generateFile_ok {file : GeneratedFile}
    (h : Ran (Run.generateFile options input) tree file later) :
    file.input = input ∧ file.output = options.schemaPath input ∧ ∃ source code,
      tree.node? (input.place tree.current) = some (.file (.text source)) ∧
      schemaFileFor options.target source = .ok code ∧
      Saved tree (options.schemaPath input) code later := by
  rw [Run.generateFile] at h
  obtain ⟨source, middle, hread, hrest⟩ := ran_bind.1 h
  obtain ⟨htext, rfl⟩ := read_ok (ran_onDisk.1 hread)
  split at hrest
  · exact absurd hrest not_ran_throw
  · next code hcode =>
    obtain ⟨result, last, hupdate, hdone⟩ := ran_bind.1 hrest
    obtain ⟨rfl, rfl⟩ := ran_pure.1 hdone
    exact ⟨rfl, rfl, source, code, (find_file (readText_ok htext)).2, hcode,
      update_ok (ran_onDisk.1 hupdate)⟩

/-- What generating leaves behind: a schema file with code for every source
file. -/
structure Generated (options : RunOptions) (inputs : List Path) (tree : FileTree)
    (made : List (Path × Text)) (files : List GeneratedFile) (later : FileTree) : Prop where
  sources : made.map Prod.fst = inputs
  read : files.map GeneratedFile.input = inputs
  outputs : files.map GeneratedFile.output = inputs.map options.schemaPath
  wrote : Wrote tree (made.map fun source => (options.schemaPath source.1, source.2)) later
  code : ∀ source ∈ made, ∃ text, schemaFileFor options.target text = .ok source.2 ∧
    ((∀ other ∈ inputs, (options.schemaPath other).place tree.current ≠
        source.1.place tree.current) →
      tree.node? (source.1.place tree.current) = some (.file (.text text)))

/-- Writing the schema files of source files. -/
theorem generateFiles_ok {files : List GeneratedFile}
    (h : Ran (Run.generateFiles options inputs) tree files later) :
    ∃ made, Generated options inputs tree made files later := by
  induction inputs generalizing tree files with
  | nil =>
    obtain ⟨rfl, rfl⟩ := ran_pure.1 h
    exact ⟨[], rfl, rfl, rfl, .refl tree, by simp⟩
  | cons input rest ih =>
    rw [Run.generateFiles] at h
    obtain ⟨file, middle, hfirst, hrest⟩ := ran_bind.1 h
    obtain ⟨others, last, hothers, hdone⟩ := ran_bind.1 hrest
    obtain ⟨rfl, rfl⟩ := ran_pure.1 hdone
    obtain ⟨hinput, houtput, source, code, hnode, hcode, hsaved⟩ := generateFile_ok hfirst
    obtain ⟨made, hmade⟩ := ih hothers
    have hcurrent := hsaved.grows.current
    refine ⟨(input, code) :: made, by rw [List.map_cons, hmade.sources],
      by rw [List.map_cons, hinput, hmade.read],
      by rw [List.map_cons, List.map_cons, houtput, hmade.outputs],
      ⟨middle, hsaved, hmade.wrote⟩, fun found hfound => ?_⟩
    rcases List.mem_cons.1 hfound with rfl | hfound
    · exact ⟨source, hcode, fun _ => hnode⟩
    · obtain ⟨text, htext, hplace⟩ := hmade.code found hfound
      refine ⟨text, htext, fun hapart => ?_⟩
      rw [hcurrent] at hplace
      have hlater := hplace fun other hother => hapart other (List.mem_cons_of_mem _ hother)
      exact (hsaved.grows.untouched _ _ fun heq =>
        hapart input List.mem_cons_self heq.symm).1 hlater

end Generating

namespace Barrel

variable {options : RunOptions} {tree later : FileTree} {inputs : List Path} {input : Path}
  {directory : Path} {specifier : Text} {names : List Text} {summary : BarrelSummary}

/-- Writing a barrel. -/
theorem writeKind_ok {kind : BarrelKind}
    (h : Ran (writeKind directory specifier names kind) tree summary later) :
    Wrote tree (kindWrite? directory specifier names kind).toList later ∧
      summary.written = (kindWrite? directory specifier names kind).toList.map Prod.fst := by
  rw [writeKind] at h
  dsimp only at h
  rw [kindWrite?]
  split at h
  · next hempty =>
    obtain ⟨rfl, rfl⟩ := ran_pure.1 h
    rw [if_pos hempty]
    exact ⟨.refl tree, rfl⟩
  · next hne =>
    obtain ⟨result, middle, hupdate, hdone⟩ := ran_bind.1 h
    obtain ⟨rfl, rfl⟩ := ran_pure.1 hdone
    rw [if_neg hne]
    exact ⟨.single (update_ok hupdate), rfl⟩

/-- Writing barrels of several kinds. -/
theorem writeKinds_ok {kinds : List BarrelKind}
    (h : Ran (writeKinds directory specifier names kinds) tree summary later) :
    Wrote tree (kinds.filterMap (kindWrite? directory specifier names)) later ∧
      summary.written = (kinds.filterMap (kindWrite? directory specifier names)).map Prod.fst := by
  induction kinds generalizing tree summary with
  | nil =>
    obtain ⟨rfl, rfl⟩ := ran_pure.1 h
    exact ⟨.refl tree, rfl⟩
  | cons kind rest ih =>
    rw [writeKinds] at h
    obtain ⟨first, middle, hfirst, hrest⟩ := ran_bind.1 h
    obtain ⟨others, last, hothers, hdone⟩ := ran_bind.1 hrest
    obtain ⟨rfl, rfl⟩ := ran_pure.1 hdone
    obtain ⟨hwrote, hwritten⟩ := writeKind_ok hfirst
    obtain ⟨hwroteRest, hwrittenRest⟩ := ih hothers
    have hlist : (kind :: rest).filterMap (kindWrite? directory specifier names) =
        (kindWrite? directory specifier names kind).toList ++
          rest.filterMap (kindWrite? directory specifier names) := by
      rw [List.filterMap_cons]
      cases kindWrite? directory specifier names kind <;> rfl
    rw [hlist, List.map_append, BarrelSummary.append]
    exact ⟨hwrote.append hwroteRest, by rw [hwritten, hwrittenRest]⟩

/-- Writing the barrels for a source file whose schema file is there. -/
theorem writeFor_ok (hstem : input.fileStem?.isSome)
    (hfile : ∃ content, tree.find (options.schemaPath input) =
      .ok ((options.schemaPath input).place tree.current, .file content))
    (h : Ran (writeFor options.baseDir options.schemaDir options.inputDir input)
      tree summary later) :
    ∃ content, tree.node? ((options.schemaPath input).place tree.current) =
        some (.file (.text content)) ∧
      Wrote tree (barrelWrites options (input, content)) later ∧
      summary.written = (barrelWrites options (input, content)).map Prod.fst := by
  obtain ⟨held, hfind⟩ := hfile
  obtain ⟨stem, hsome⟩ := Option.isSome_iff_exists.1 hstem
  have hisFile : (tree.read (options.schemaPath input)).toBool = true := by
    rw [FileTree.read, hfind]
    rfl
  rw [writeFor] at h
  dsimp only at h
  obtain ⟨there, middle, hthere, hrest⟩ := ran_bind.1 h
  obtain ⟨rfl, rfl⟩ := isFile_ok hthere
  rw [show options.schemaDir.join (relativeInput input options.inputDir) =
    options.schemaPath input from rfl] at hrest
  rw [if_pos hisFile] at hrest
  obtain ⟨content, next, hread, hwrite⟩ := ran_bind.1 hrest
  obtain ⟨htext, rfl⟩ := read_ok hread
  rw [hsome] at hwrite
  refine ⟨content, (find_file (readText_ok htext)).2, ?_⟩
  have hdir : options.barrelDir input = options.baseDir.join ⟨stem⟩ := by
    rw [RunOptions.barrelDir, hsome]
    rfl
  rw [barrelWrites, hdir]
  exact writeKinds_ok hwrite

/-- What writing barrels leaves behind: for every source file the barrels of
what its schema file holds. -/
structure Barrelled (options : RunOptions) (inputs : List Path) (tree : FileTree)
    (held : List (Path × Text)) (written : List Path) (later : FileTree) : Prop where
  sources : held.map Prod.fst = inputs
  written : written = (held.flatMap (barrelWrites options)).map Prod.fst
  wrote : Wrote tree (held.flatMap (barrelWrites options)) later
  text : ∀ source ∈ held,
    (∀ other ∈ inputs, ∀ kind, (options.barrelPath other kind).place tree.current ≠
        (options.schemaPath source.1).place tree.current) →
      tree.node? ((options.schemaPath source.1).place tree.current) =
        some (.file (.text source.2))

/-- Writing the barrels for source files whose schema files are there. -/
theorem writeAll_ok (hstem : ∀ input ∈ inputs, input.fileStem?.isSome)
    (hfile : ∀ input ∈ inputs, ∃ content, tree.find (options.schemaPath input) =
      .ok ((options.schemaPath input).place tree.current, .file content))
    (h : Ran (writeAll options.baseDir options.schemaDir options.inputDir inputs)
      tree summary later) :
    ∃ held, Barrelled options inputs tree held summary.written later := by
  induction inputs generalizing tree summary with
  | nil =>
    obtain ⟨rfl, rfl⟩ := ran_pure.1 h
    exact ⟨[], rfl, rfl, .refl tree, by simp⟩
  | cons input rest ih =>
    rw [writeAll] at h
    obtain ⟨first, middle, hfirst, hrest⟩ := ran_bind.1 h
    obtain ⟨others, last, hothers, hdone⟩ := ran_bind.1 hrest
    obtain ⟨rfl, rfl⟩ := ran_pure.1 hdone
    obtain ⟨content, hnode, hwrote, hwritten⟩ :=
      writeFor_ok (hstem input List.mem_cons_self) (hfile input List.mem_cons_self) hfirst
    have hcurrent := hwrote.grows.current
    -- schema files are still there for the other source files
    have hfileRest : ∀ other ∈ rest, ∃ content, middle.find (options.schemaPath other) =
        .ok ((options.schemaPath other).place middle.current, .file content) := by
      intro other hother
      obtain ⟨held, hfind⟩ := hfile other (List.mem_cons_of_mem _ hother)
      obtain ⟨now, hnow⟩ := hwrote.grows.file _ _ (find_file hfind).2
      exact ⟨now, hcurrent ▸ hwrote.grows.find_file hfind hnow⟩
    obtain ⟨held, hheld⟩ := ih (fun other hother => hstem other (List.mem_cons_of_mem _ hother))
      hfileRest hothers
    refine ⟨(input, content) :: held, by rw [List.map_cons, hheld.sources], ?_, ?_,
      fun source hsource hapart => ?_⟩
    · rw [List.flatMap_cons, List.map_append, BarrelSummary.append, hwritten, hheld.written]
    · rw [List.flatMap_cons]
      exact hwrote.append hheld.wrote
    · rcases List.mem_cons.1 hsource with rfl | hsource
      · exact hnode
      · have hlater := hheld.text source hsource
        rw [hcurrent] at hlater
        refine (hwrote.grows.untouched _ _ ?_).1 (hlater fun other hother =>
          hapart other (List.mem_cons_of_mem _ hother))
        rintro ⟨write, hwrite, hplace⟩
        obtain ⟨kind, -, rfl⟩ := mem_barrelWrites.1 hwrite
        exact hapart input List.mem_cons_self kind hplace

end Barrel

namespace Specifier

variable {tree later : FileTree} {paths : List Path}

/-- What completing specifiers leaves behind: files with completed texts. -/
structure Completed (paths : List Path) (tree later : FileTree) : Prop where
  grows : Grows (fun place => ∃ path ∈ paths, path.place tree.current = place) tree later
  text : (paths.map fun path => path.place tree.current).Nodup →
    ∀ path ∈ paths, ∃ text, tree.node? (path.place tree.current) = some (.file (.text text)) ∧
      later.node? (path.place tree.current) = some (.file (.text ((complete? text).getD text)))

/-- Completing the specifiers in the first of some files. A text that lacks
nothing counts as saved again. -/
theorem completeFiles_cons_ok {path : Path} {fixed : List Path}
    (h : Ran (completeFiles (path :: paths)) tree fixed later) :
    ∃ content next others, tree.readText path = .ok content ∧
      Saved tree path ((complete? content).getD content) next ∧
      Ran (completeFiles paths) next others later := by
  rw [completeFiles] at h
  obtain ⟨content, middle, hread, hrest⟩ := ran_bind.1 h
  obtain ⟨htext, rfl⟩ := read_ok hread
  split at hrest
  · next hnone => exact ⟨content, middle, fixed, htext, hnone ▸ .of_readText htext, hrest⟩
  · next text hsome =>
    obtain ⟨_, next, hwrite, hrest⟩ := ran_bind.1 hrest
    obtain ⟨others, last, hothers, hdone⟩ := ran_bind.1 hrest
    obtain ⟨rfl, rfl⟩ := ran_pure.1 hdone
    exact ⟨content, next, others, htext, hsome ▸ overwrite_ok hwrite, hothers⟩

/-- Completing the specifiers in files. -/
theorem completeFiles_ok {fixed : List Path} (h : Ran (completeFiles paths) tree fixed later) :
    Completed paths tree later := by
  induction paths generalizing tree fixed with
  | nil =>
    obtain ⟨-, rfl⟩ := ran_pure.1 h
    exact ⟨.refl _ tree, by simp⟩
  | cons path rest ih =>
    obtain ⟨content, next, others, htext, hsaved, hothers⟩ := completeFiles_cons_ok h
    have hdone := ih hothers
    have hcurrent := hsaved.grows.current
    refine ⟨(hsaved.grows.mono fun place hplace => ?_).trans
        (hdone.grows.mono fun place hplace => ?_),
      fun hnodup found hfound => ?_⟩
    · exact ⟨path, List.mem_cons_self, hplace.symm⟩
    · obtain ⟨other, hother, hplace⟩ := hplace
      exact ⟨other, List.mem_cons_of_mem _ hother, hcurrent ▸ hplace⟩
    · rw [List.map_cons, List.nodup_cons] at hnodup
      obtain ⟨hfresh, hnodup⟩ := hnodup
      rcases List.mem_cons.1 hfound with rfl | hfound
      · refine ⟨content, (find_file (readText_ok htext)).2,
          (hdone.grows.untouched _ _ ?_).2 hsaved.node?⟩
        rintro ⟨other, hother, hplace⟩
        exact hfresh (List.mem_map.2 ⟨other, hother, hcurrent ▸ hplace⟩)
      · have hrest := hdone.text (hcurrent ▸ hnodup) found hfound
        rw [hcurrent] at hrest
        obtain ⟨text, hnode, hlater⟩ := hrest
        refine ⟨text, (hsaved.grows.untouched _ _ fun heq => hfresh ?_).1 hnode, hlater⟩
        exact List.mem_map.2 ⟨found, hfound, heq⟩

end Specifier

end InterfaceSchema
