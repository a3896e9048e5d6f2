import InterfaceSchema.Proofs.Run.Outputs
import InterfaceSchema.Proofs.Run.Succeeding

/-!
# Runs that are repeated

A run that succeeds can be repeated, and the second run leaves every file as
the first one has left it. It reads the same source files, so it plans the same
texts. Nothing is in its way, since everything it writes is there already. What
it completes again was complete.
-/

namespace InterfaceSchema

open FileTree Disk

variable {options : RunOptions} {tree cleaned written later again : FileTree}
  {made : List (Path × Text)}

section Cleaning

/-- Cleaning what was cleaned changes nothing. -/
theorem cleanOutput_again (hclean : Ran (Run.cleanOutput options) tree () cleaned)
    (hmeets : options.clean = true → tree.Meets options.baseDir) :
    Ran (Run.cleanOutput options) cleaned () cleaned := by
  have hmissing : options.clean = true → ∀ place node,
      cleaned.find options.baseDir ≠ .ok (place, node) := by
    intro hset place node hfind
    have hnode := node?_of_find options.names_baseDir options.isName_target hfind
    have hplace : place = options.baseDir.place tree.current := by
      rw [← (cleanOutput_cleaned hclean).current]
      cases node with
      | directory => exact find_directory hfind
      | file content => exact (find_file hfind).1
    rw [node?_cleaned hclean hmeets, if_pos ⟨hset, hplace ▸ List.prefix_rfl⟩] at hnode
    cases hnode
  obtain ⟨twice, htwice⟩ := cleanOutput_succeeds fun hset place content =>
    hmissing hset place (.file content)
  have hsame := cleanOutput_ok htwice
  rw [if_neg] at hsame
  · exact hsame ▸ htwice
  · rintro ⟨hset, hfound⟩
    rcases hfind : cleaned.find options.baseDir with cause | ⟨place, node⟩
    · rw [hfind] at hfound
      cases hfound
    · exact hmissing hset place node hfind

end Cleaning

/-- A tree to which a run has come, and the tree it is cleaned to when it is
run again. -/
structure Repeats (options : RunOptions) (cleaned : FileTree) (made : List (Path × Text))
    (written later again : FileTree) : Prop where
  produced : Produced options cleaned made written later
  some_made : made ≠ []
  cleaned_wellFormed : cleaned.WellFormed
  cleaned_rooted : cleaned.Rooted
  separate : Separate options cleaned.current
  /-- If output is cleaned, nothing was left of older output. -/
  none_left : options.clean = true → ∀ below,
    cleaned.node? (options.baseDir.place cleaned.current ++ below) = none
  current : again.current = later.current
  wellFormed : again.WellFormed
  /-- Cleaning again removes the base directory. -/
  node? : ∀ place, again.node? place =
    if options.clean = true ∧ options.baseDir.place cleaned.current <+: place then none
      else later.node? place

namespace Repeats

variable (h : Repeats options cleaned made written later again)

include h

/-- The tree that is cleaned again starts from the same directory. -/
theorem current_eq : again.current = cleaned.current :=
  h.current.trans h.produced.grows.current

/-- Directories that were there before anything was written are there again. -/
theorem directory {place : Place} (hnode : cleaned.node? place = some .directory) :
    again.node? place = some .directory := by
  rw [h.node?, if_neg]
  · exact h.produced.grows.directory place hnode
  · rintro ⟨hclean, below, rfl⟩
    rw [h.none_left hclean below] at hnode
    cases hnode

/-- The tree that is cleaned again fits the one that was left behind. -/
theorem fits : Fits (fun _ => True) again later := by
  have hkept : ∀ place node, again.node? place = some node → later.node? place = some node := by
    intro place node hnode
    rw [h.node?] at hnode
    split at hnode
    · cases hnode
    · exact hnode
  exact ⟨h.current.symm, fun place _ hnode => hkept place _ hnode,
    fun place content _ hnode => ⟨content, hkept place _ hnode⟩⟩

/-- There is a source file. -/
theorem exists_source : ∃ list, list ∈ sources cleaned options.inputDir :=
  List.exists_mem_of_ne_nil _ (h.produced.reads.sources_ne_nil h.some_made)

/-- What lies below the input directory is left alone. -/
theorem node?_input (list : List Text) (content : Content) :
    again.node? (options.inputDir.searched.place cleaned.current ++ list) =
        some (.file content) ↔
      cleaned.node? (options.inputDir.searched.place cleaned.current ++ list) =
        some (.file content) := by
  have hbelow := h.separate.not_prefix list
  have hwrote := h.produced.wrote
  rw [h.node?, if_neg fun hboth => hbelow hboth.2]
  refine h.produced.grows.untouched _ content (not_or.2 ⟨?_, hbelow⟩)
  rintro ⟨write, hwrite, hplace⟩
  obtain ⟨source, hsource, houtput⟩ :=
    exists_output_of_mem_plan h.cleaned_wellFormed h.produced.reads.sources hwrite
  -- the input directory is a directory, so it has not been written
  obtain ⟨other, hother⟩ := h.exists_source
  have hmem := isSource_of_mem_sources h.cleaned_wellFormed hother
  obtain ⟨held, hheld⟩ := hmem.file
  have hdirectory := h.cleaned_rooted.paved _ other held hheld [] List.nil_prefix
    (ne_nil_of_endsAsSource hmem.ending).symm
  rw [List.append_nil] at hdirectory
  refine houtput.not_prefix h.separate (hsource.leadDown h.cleaned_wellFormed) (fun heq => ?_)
    (hplace ▸ List.prefix_append _ _)
  obtain ⟨saved, hfind⟩ := hwrote.find hwrite
  have hsaved := (find_file hfind).2
  rw [← heq, hwrote.grows.directory _ hdirectory] at hsaved
  cases hsaved

/-- The input directory is found again. -/
theorem find_input : again.find options.inputDir.searched =
    .ok (options.inputDir.searched.place cleaned.current, .directory) := by
  obtain ⟨list, hlist⟩ := h.exists_source
  obtain ⟨place, hfind⟩ := find_of_mem_sources hlist
  obtain rfl := find_directory hfind
  obtain ⟨hne, -, hroute⟩ := find_directory_route.1 hfind
  rw [find_directory_route, h.current_eq]
  exact ⟨hne, rfl, fun entered hentered => h.directory (hroute entered hentered)⟩

/-- Files below the input directory stand in directories again. -/
theorem paved_input : again.Paved (options.inputDir.searched.place cleaned.current) := by
  intro list content hnode above habove hne
  have hheld := (h.node?_input list content).1 hnode
  exact h.directory (h.cleaned_rooted.paved _ list content hheld above habove hne)

/-- The same source files have the same code. -/
theorem reads : Reads options again made := by
  obtain ⟨list, hlist⟩ := h.exists_source
  obtain ⟨place, hfind⟩ := find_of_mem_sources hlist
  obtain rfl := find_directory hfind
  exact h.produced.reads.of_files h.cleaned_wellFormed h.wellFormed h.current_eq
    (h.cleaned_rooted.paved _) hfind h.find_input h.paved_input h.node?_input

/-- Files below the base directory stand in directories again. -/
theorem paved_base : again.Paved (options.baseDir.place cleaned.current) := by
  intro list content hnode above habove hne
  have hwritten := paved_of_wrote h.cleaned_wellFormed h.separate.ne_nil
    h.produced.reads.sources (h.cleaned_rooted.paved _) h.produced.wrote
  rw [h.node?] at hnode ⊢
  split at hnode
  · cases hnode
  · next hkept =>
    have hset : options.clean ≠ true := fun hset => hkept ⟨hset, List.prefix_append _ _⟩
    rw [if_neg fun hboth => hset hboth.1]
    obtain ⟨held, hheld, -⟩ := (h.produced.completes.node? _ content).1 hnode
    exact h.produced.completes.grows.directory _ (hwritten list held hheld above habove hne)

/-- Everything that is planned is there already. -/
theorem leadsWithin : ∀ write ∈ plan options cleaned.current made,
    LeadsWithin (fun _ => True) later write.1 := by
  intro write hwrite
  obtain ⟨list, hlist, houtput⟩ :=
    exists_output_of_mem_plan h.cleaned_wellFormed h.produced.reads.sources hwrite
  obtain ⟨rest, name, hleads, -⟩ :=
    houtput.leads h.separate.ne_nil (hlist.leadDown h.cleaned_wellFormed)
  obtain ⟨content, hfind⟩ := h.produced.find hwrite
  exact ⟨⟨_, name, hleads.names, hleads.isName⟩, ⟨_, content, hfind⟩, fun _ _ => trivial⟩

/-- What a file holds is final. -/
theorem final_eq {place : Place} {content : Content}
    (hnode : later.node? place = some (.file content)) :
    options.final cleaned.current place content = content := by
  obtain ⟨held, -, rfl⟩ := h.produced.node?_eq_iff.1 hnode
  exact final_final

/-- What is completed again is text. -/
theorem text (hfix : options.fixImports = true) {list : List Text} {content : Content}
    (hending : endsAsSource list = true)
    (hnode : again.node? (options.baseDir.place cleaned.current ++ list) = some (.file content)) :
    ∃ text, content = .text text := by
  rw [h.node?] at hnode
  split at hnode
  · cases hnode
  · obtain ⟨held, hheld, rfl⟩ := (h.produced.completes.node? _ content).1 hnode
    obtain ⟨text, rfl⟩ := h.produced.completes.text hfix list held hending
      (h.produced.wrote.grows.current.symm ▸ hheld)
    rw [RunOptions.final]
    split
    · exact ⟨_, rfl⟩
    · exact ⟨_, rfl⟩

/-- What the second run leaves behind is what the first one has left. -/
theorem node?_iff {writtenAgain last : FileTree}
    (hagain : Produced options again made writtenAgain last) (place : Place) (content : Content) :
    last.node? place = some (.file content) ↔ later.node? place = some (.file content) := by
  have hlater : later.node? place = some (.file content) ↔ _ := h.produced.node?_eq_iff
  rw [hagain.node?_eq_iff, h.current_eq, hlater]
  rcases hlast : lastText? cleaned.current (plan options cleaned.current made) place with _ | text
  · rw [hlast] at hlater
    rw [← hlater]
    constructor
    · rintro ⟨held, hnode, rfl⟩
      dsimp only at hnode
      rw [h.node?] at hnode
      split at hnode
      · cases hnode
      · rwa [h.final_eq hnode]
    · intro hnode
      refine ⟨content, ?_, (h.final_eq hnode).symm⟩
      obtain ⟨held, hheld, -⟩ := hlater.1 hnode
      dsimp only at hheld ⊢
      rw [h.node?, if_neg]
      · exact hnode
      · rintro ⟨hclean, below, rfl⟩
        rw [h.none_left hclean below] at hheld
        cases hheld
  · rfl

end Repeats

/-- What a run has left behind can be cleaned again. -/
theorem exists_repeats (htree : tree.WellFormed) (hrooted : tree.Rooted)
    (hseparate : Separate options tree.current)
    (hmeets : options.clean = true → tree.Meets options.baseDir)
    (hclean : Ran (Run.cleanOutput options) tree () cleaned) (hmade : made ≠ [])
    (hproduced : Produced options cleaned made written later) :
    ∃ again, Ran (Run.cleanOutput options) later () again ∧
      Repeats options cleaned made written later again := by
  have hkept := cleanOutput_cleaned hclean
  have hwell := hkept.wellFormed htree
  have hseparateKept : Separate options cleaned.current := hkept.current ▸ hseparate
  have hcurrent : later.current = cleaned.current := hproduced.grows.current
  -- the base directory is found
  have hbase : later.find options.baseDir =
      .ok (options.baseDir.place later.current, .directory) := by
    have hwritten := find_baseDir_of_wrote hwell hseparateKept.ne_nil hmade
      hproduced.reads.sources hproduced.wrote
    rw [hproduced.completes.grows.current]
    exact hproduced.completes.grows.find_directory hwritten
  have hcleans : ∃ again, Ran (Run.cleanOutput options) later () again :=
    cleanOutput_succeeds fun _ place content hfile => absurd (hbase.symm.trans hfile) (by simp)
  obtain ⟨again, hagain⟩ := hcleans
  have hkeptAgain := cleanOutput_cleaned hagain
  have hnode := node?_cleaned hagain fun _ => .inl (by rw [hbase]; rfl)
  refine ⟨again, hagain, hproduced, hmade, hwell, rooted_of_cleanOutput hrooted hclean,
    hseparateKept, fun hset below => ?_, hkeptAgain.current,
    hkeptAgain.wellFormed (hproduced.grows.wellFormed hwell), hcurrent ▸ hnode⟩
  rw [hkept.current, node?_cleaned hclean hmeets, if_pos ⟨hset, List.prefix_append _ _⟩]

/-- A run that succeeds succeeds again, and leaves every file as it was. -/
theorem run_idempotent {summary : RunSummary} (htree : tree.WellFormed) (hrooted : tree.Rooted)
    (hseparate : Separate options tree.current)
    (hmeets : options.clean = true → tree.Meets options.baseDir)
    (hran : Ran (Run.run options) tree summary later) :
    ∃ summary' last, Ran (Run.run options) later summary' last ∧
      ∀ place content, last.node? place = some (.file content) ↔
        later.node? place = some (.file content) := by
  obtain ⟨cleaned, hclean, hhistory⟩ := run_history htree hrooted hseparate hran
  rcases hhistory with ⟨hsources, rfl⟩ | ⟨made, written, hmade, hproduced⟩
  · exact ⟨_, later, run_succeeds_without_sources (cleanOutput_again hclean hmeets) hsources,
      fun _ _ => Iff.rfl⟩
  · obtain ⟨again, hagain, hrepeats⟩ :=
      exists_repeats htree hrooted hseparate hmeets hclean hmade hproduced
    have hcurrent := hrepeats.current_eq
    obtain ⟨summary', writtenAgain, last, hlast, -, hproducedAgain⟩ :=
      run_succeeds hagain hrepeats.wellFormed (hcurrent ▸ hrepeats.paved_input)
        (hcurrent ▸ hrepeats.paved_base) (hcurrent ▸ hrepeats.separate) hrepeats.reads hmade
        hrepeats.fits (hcurrent ▸ hrepeats.leadsWithin) (fun _ => trivial)
        (by
          rw [hcurrent]
          exact fun hfix list content hending _ hnode => hrepeats.text hfix hending hnode)
    exact ⟨summary', last, hlast, hrepeats.node?_iff hproducedAgain⟩

/-- A tree with a source file and an older file that lacks an extension in a
specifier. -/
def staleTree : FileTree where
  nodes := [
    (["out"], .directory), (["out", "types"], .directory),
    (["out", "types", "old.ts"], .file (.text "import \x7b B \x7d from './b'\n")),
    (["src"], .directory),
    (["src", "a.ts"], .file (.text "export interface A \x7b b: \x7b c: string \x7d \x7d"))]
  current := []

/-- The options of a run on this tree. -/
def staleOptions (outputDir : Path) (clean : Bool) : RunOptions where
  target := .types
  inputDir := ⟨"src"⟩
  outputDir := outputDir
  clean := clean
  fixImports := true

/-- Everything in the tree stands in a directory. -/
theorem rooted_stale : staleTree.Rooted :=
  WellFormed.rooted (by decide +kernel) (by decide +kernel)

/-- A file that is older than both runs is kept, and completed once. -/
theorem run_idempotent_stale : ∃ summary later summary' last,
    Ran (Run.run (staleOptions ⟨"out"⟩ false)) staleTree summary later ∧
      Ran (Run.run (staleOptions ⟨"out"⟩ false)) later summary' last ∧
      (∀ place content, last.node? place = some (.file content) ↔
        later.node? place = some (.file content)) ∧
      last.node? ["out", "types", "old.ts"] =
        some (.file (.text "import \x7b B \x7d from './b.js'\n")) := by
  have hseparate : Separate (staleOptions ⟨"out"⟩ false) staleTree.current :=
    ⟨by decide +kernel, by decide +kernel⟩
  have hrun : (outcome (staleOptions ⟨"out"⟩ false) staleTree).1.toOption.map RunSummary.noInputs =
        some false ∧
      (outcome (staleOptions ⟨"out"⟩ false) staleTree).2.node? ["out", "types", "old.ts"] =
        some (.file (.text "import \x7b B \x7d from './b.js'\n")) := by decide +kernel
  obtain ⟨summary, hran, -⟩ := ran_of_outcome hrun.1
  obtain ⟨summary', last, hagain, hsame⟩ :=
    run_idempotent (by decide +kernel) rooted_stale hseparate (fun hclean => by cases hclean) hran
  exact ⟨summary, _, summary', last, hran, hagain, hsame, (hsame _ _).2 hrun.2⟩

/-- If the base directory is spelled through a directory that the run makes
itself, older output is cleaned by the second run only. -/
theorem not_run_idempotent_through_missing :
    ¬∀ options tree later summary, tree.WellFormed → tree.Rooted →
      Separate options tree.current → Ran (Run.run options) tree summary later →
        ∃ summary' last, Ran (Run.run options) later summary' last ∧
          ∀ place content, last.node? place = some (.file content) ↔
            later.node? place = some (.file content) := by
  intro h
  have hseparate : Separate (staleOptions ⟨"missing/../out"⟩ true) staleTree.current :=
    ⟨by decide +kernel, by decide +kernel⟩
  have hrun : (outcome (staleOptions ⟨"missing/../out"⟩ true) staleTree).1.toOption.map
        RunSummary.noInputs = some false ∧
      (outcome (staleOptions ⟨"missing/../out"⟩ true) staleTree).2.node?
        ["out", "types", "old.ts"] =
          some (.file (.text "import \x7b B \x7d from './b.js'\n")) ∧
      (outcome (staleOptions ⟨"missing/../out"⟩ true)
        (outcome (staleOptions ⟨"missing/../out"⟩ true) staleTree).2).2.node?
          ["out", "types", "old.ts"] = none := by decide +kernel
  obtain ⟨hsucceeds, hkept, hgone⟩ := hrun
  obtain ⟨summary, hran, -⟩ := ran_of_outcome hsucceeds
  obtain ⟨summary', last, hagain, hsame⟩ := h _ _ _ _ (by decide +kernel) rooted_stale hseparate hran
  have hlast := (hsame _ _).2 hkept
  rw [show last = _ from (congrArg Prod.snd hagain).symm] at hlast
  exact absurd (hlast.symm.trans hgone) (by simp)

end InterfaceSchema
