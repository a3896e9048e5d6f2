import InterfaceSchema.Proofs.Run.Beside

/-!
# Runs that commute

Two runs with base directories apart from one another, and from what they read,
may be exchanged: if both succeed one after another, they succeed the other way
round, and leave the same files. Each of them finds trees that are alike, so it
plans the same texts, and nothing is in its way because nothing was in its way
when it came second.
-/

namespace InterfaceSchema

open FileTree Disk

variable {options other first second : RunOptions} {start tree cleaned written later goal : FileTree}
  {part : Place → Prop} {made : List (Path × Text)} {summary summary' : RunSummary}

/-- What a run has written is found in a tree that keeps it. -/
theorem Produced.leadsWithin (h : Produced options cleaned made written later)
    (hcleaned : cleaned.WellFormed) (hne : options.inputDir.text ≠ [])
    (hstem : ∀ list, IsSource cleaned options.inputDir list → stemName list ≠ "..".toList)
    (hkept : Fits (fun place => place ∈ options.baseDir.route cleaned.current ∨
      options.baseDir.place cleaned.current <+: place) later goal)
    (hpart : ∀ place, place ∈ options.baseDir.route cleaned.current ∨
      options.baseDir.place cleaned.current <+: place → part place) :
    ∀ write ∈ plan options cleaned.current made, LeadsWithin part goal write.1 := by
  intro write hwrite
  have hcurrent : later.current = cleaned.current := h.grows.current
  obtain ⟨list, hsource, houtput⟩ := exists_output_of_mem_plan hcleaned h.reads.sources hwrite
  have hdown := hsource.leadDown hcleaned
  obtain ⟨rest, name, hleads, -⟩ := houtput.leads hne hdown
  have hroute := (houtput.below hne hdown (hstem list hsource) cleaned.current).2
  obtain ⟨content, hfind⟩ := h.find hwrite
  obtain ⟨held, hheld⟩ := hkept.find_file hleads.names hleads.isName (hcurrent ▸ hroute) hfind
  refine ⟨⟨_, name, hleads.names, hleads.isName⟩, ⟨_, held, hheld⟩, fun entered hentered => ?_⟩
  rw [hkept.current, hcurrent] at hentered
  exact hpart entered (hroute entered hentered)

section Alike

variable {again : FileTree} (hundisturbed : Undisturbed options other start)
  (hother : Undisturbed other options start)

include hundisturbed hother

/-- Trees that were cleaned fit a goal, if what is kept of them does, and what
was written later. -/
theorem Alike.fits_cleaned {second : FileTree} {touched : Place → Prop}
    (h : Alike other start cleaned again) (hclean : Ran (Run.cleanOutput options) second () again)
    (hgrows : Grows touched cleaned later)
    (hfits : Fits (fun place => part place ∧ ¬options.baseDir.place start.current <+: place)
      second goal)
    (hkept : Fits (fun place => place ∈ options.baseDir.route start.current ∨
      options.baseDir.place start.current <+: place) later goal) : Fits part again goal := by
  have hsame : ∀ place, options.baseDir.place start.current <+: place →
      again.node? place = cleaned.node? place := fun place hbelow =>
    h.same place (hundisturbed.spares_below hother hbelow)
  refine ⟨hfits.current.trans (cleanOutput_cleaned hclean).current.symm,
    fun place hpart hnode => ?_, fun place content hpart hnode => ?_⟩
  · by_cases hbelow : options.baseDir.place start.current <+: place
    · rw [hsame place hbelow] at hnode
      exact hkept.directory place (.inr hbelow) (hgrows.directory place hnode)
    · exact hfits.directory place ⟨hpart, hbelow⟩ (node?_of_cleaned hclean hnode)
  · by_cases hbelow : options.baseDir.place start.current <+: place
    · rw [hsame place hbelow] at hnode
      obtain ⟨held, hheld⟩ := hgrows.file place content hnode
      exact hkept.file place held (.inr hbelow) hheld
    · exact hfits.file place content ⟨hpart, hbelow⟩ (node?_of_cleaned hclean hnode)

/-- A run that succeeds on one of two trees that are alike succeeds on the other
one, and leaves the same files below its base directory. Nothing is in its way
if the other tree, and what the run has left behind, fit a common goal. -/
theorem Alike.run (h : Alike other start tree again) (htree : tree.WellFormed)
    (hagain : again.WellFormed)
    (hstem : ∀ list, IsSource tree options.inputDir list → stemName list ≠ "..".toList)
    (hran : Ran (Run.run options) tree summary later)
    (hpart : ∀ place, place ∈ options.baseDir.route start.current ∨
      options.baseDir.place start.current <+: place → part place)
    (hfits : Fits (fun place => part place ∧ ¬options.baseDir.place start.current <+: place)
      again goal)
    (hkept : Fits (fun place => place ∈ options.baseDir.route start.current ∨
      options.baseDir.place start.current <+: place) later goal) :
    ∃ summary' last, Ran (Run.run options) again summary' last ∧ Fits part last goal ∧
      ∀ place content, options.baseDir.place start.current <+: place →
        (last.node? place = some (.file content) ↔ later.node? place = some (.file content)) := by
  have hseparate := hundisturbed.separate
  obtain ⟨cleaned, hclean, hhistory⟩ := run_history_of_paved htree
    (fun cleaned hclean => by
      obtain ⟨_, -, halike⟩ := h.cleanOutput hundisturbed hother hclean
      rw [halike.current_first]
      exact halike.paved_input hundisturbed) (h.current_first ▸ hseparate) hran
  obtain ⟨gone, hgone, halike⟩ := h.cleanOutput hundisturbed hother hclean
  have hcleaned := (cleanOutput_cleaned hclean).wellFormed htree
  have hwell := (cleanOutput_cleaned hgone).wellFormed hagain
  have hfirst := halike.current_first
  have hsecond := halike.current_second
  have hfile : ∀ place content, options.baseDir.place start.current <+: place →
      (gone.node? place = some (.file content) ↔ cleaned.node? place = some (.file content)) :=
    fun place content hbelow =>
      halike.file_iff (hundisturbed.spares_below hother hbelow).1 content
  rcases hhistory with ⟨hnone, rfl⟩ | ⟨made, written, hmade, hproduced⟩
  · have hnoneAgain := halike.sources_eq_nil hundisturbed hcleaned hwell hnone
    exact ⟨_, gone, run_succeeds_without_sources hgone hnoneAgain,
      halike.fits_cleaned hundisturbed hother hgone (.refl (fun _ => False) _) hfits hkept, hfile⟩
  · have hreads := halike.reads hundisturbed hcleaned hwell hproduced.reads hmade
    have hfitsGone := halike.fits_cleaned hundisturbed hother hgone hproduced.grows hfits hkept
    have hstemCleaned : ∀ list, IsSource cleaned options.inputDir list →
        stemName list ≠ "..".toList := by
      intro list hsource
      obtain ⟨content, hnode⟩ := hsource.file
      refine hstem list ⟨⟨content, node?_of_cleaned hclean ?_⟩, hsource.ending⟩
      rw [h.current_first, ← hfirst]
      exact hnode
    have hgoal := hproduced.leadsWithin hcleaned hseparate.ne_nil hstemCleaned
      (hfirst ▸ hkept) (hfirst ▸ hpart)
    have htext : options.fixImports = true → ∀ list content, endsAsSource list = true →
        lastText? start.current (plan options start.current made)
            (options.baseDir.place start.current ++ list) = none →
          gone.node? (options.baseDir.place start.current ++ list) = some (.file content) →
            ∃ text, content = .text text := by
      intro hfix list content hending hlast hnode
      rw [hfile _ content (List.prefix_append _ _)] at hnode
      rw [← hfirst] at hlast hnode
      exact hproduced.exists_text hfix hending hlast hnode
    obtain ⟨summary', writtenAgain, last, hlast, hfitsLast, hproducedAgain⟩ :=
      run_succeeds hgone hwell (hsecond ▸ halike.symm.paved_input hundisturbed)
        (hsecond ▸ halike.symm.paved_base hundisturbed hother) (hsecond ▸ hseparate) hreads hmade
        hfitsGone (by rw [hsecond, ← hfirst]; exact hgoal)
        (fun list => hpart _ (.inr (hsecond ▸ List.prefix_append _ _)))
        (by rw [hsecond]; exact htext)
    refine ⟨summary', last, hlast, hfitsLast, fun place content hbelow => ?_⟩
    rw [hproducedAgain.node?_eq_iff, hproduced.node?_eq_iff, hfirst, hsecond]
    rcases lastText? start.current (plan options start.current made) place with _ | text
    · simp only [hfile place _ hbelow]
    · rfl

end Alike

/-- Two runs neither of which disturbs the other. -/
structure Independent (first second : RunOptions) (tree : FileTree) : Prop where
  left : Undisturbed first second tree
  right : Undisturbed second first tree

/-- Two independent runs that succeed one after the other succeed the other way
round, and leave the same files. -/
theorem runs_commute {middle : FileTree} (htree : tree.WellFormed) (hrooted : tree.Rooted)
    (h : Independent first second tree) (hfirst : Ran (Run.run first) tree summary middle)
    (hsecond : Ran (Run.run second) middle summary' later) :
    ∃ summarySecond summaryFirst between last,
      Ran (Run.run second) tree summarySecond between ∧
      Ran (Run.run first) between summaryFirst last ∧
      ∀ place content, last.node? place = some (.file content) ↔
        later.node? place = some (.file content) := by
  have hleft := h.left
  have hright := h.right
  -- what the runs do to each other in the given order
  have hbeside := beside_of_ran htree hleft.separate.ne_nil hleft.stem hfirst
  have hmiddle := hbeside.wellFormed htree
  have hstemMiddle : ∀ list, IsSource middle second.inputDir list →
      stemName list ≠ "..".toList := fun list => hright.stem_beside hbeside
  have hbesideLater := beside_of_ran hmiddle hright.separate.ne_nil hstemMiddle hsecond
  have hcurrent := hbeside.current
  -- the second run comes first
  have hfits : Fits (fun place => ¬first.baseDir.place tree.current <+: place ∧
      ¬second.baseDir.place tree.current <+: place) tree later :=
    (hbeside.fits fun _ hplace => hplace.1).trans
      (hbesideLater.fits fun _ hplace => hcurrent ▸ hplace.2)
  obtain ⟨summarySecond, between, hranSecond, hfitsBetween, hfilesSecond⟩ :=
    (hbeside.alike hrooted).symm.run hright hleft hmiddle htree hstemMiddle hsecond
      (fun place => hright.outside_of_entered hleft) hfits
      (.of_grows (.refl (fun _ => False) later) _)
  have hbesideSecond := beside_of_ran htree hright.separate.ne_nil hright.stem hranSecond
  have hbetween := hbesideSecond.wellFormed htree
  -- the first run comes second
  have hkept : Fits (fun place => place ∈ first.baseDir.route tree.current ∨
      first.baseDir.place tree.current <+: place) middle later :=
    hbesideLater.fits fun place hplace => hcurrent ▸ hleft.outside_of_entered hright hplace
  have hfitsOther : Fits (fun place => True ∧ ¬first.baseDir.place tree.current <+: place)
      between later := hfitsBetween.mono fun _ hplace => hplace.2
  obtain ⟨summaryFirst, last, hranFirst, -, hfilesFirst⟩ :=
    (hbesideSecond.alike hrooted).run hleft hright htree hbetween hleft.stem hfirst
      (fun _ _ => trivial) hfitsOther hkept
  have hbesideFirst := beside_of_ran hbetween hleft.separate.ne_nil
    (fun list => hleft.stem_beside hbesideSecond) hranFirst
  refine ⟨summarySecond, summaryFirst, between, last, hranSecond, hranFirst,
    fun place content => ?_⟩
  by_cases hbelowFirst : first.baseDir.place tree.current <+: place
  · have hbelow := (hleft.spares_below hright hbelowFirst).1
    rw [hfilesFirst place content hbelowFirst, hbesideLater.file_iff (hcurrent ▸ hbelow)]
  · rw [hbesideFirst.file_iff (hbesideSecond.current ▸ hbelowFirst)]
    by_cases hbelowSecond : second.baseDir.place tree.current <+: place
    · exact hfilesSecond place content hbelowSecond
    · rw [hbesideSecond.file_iff hbelowSecond, hbesideLater.file_iff (hcurrent ▸ hbelowSecond),
        hbeside.file_iff hbelowFirst]

/-- A tree with a source file. -/
def pairTree : FileTree where
  nodes := [
    (["src"], .directory),
    (["src", "a.ts"], .file (.text "export interface A \x7b b: string \x7d"))]
  current := []

/-- The options of a run on this tree. -/
def pairOptions (target : Target) (inputDir outputDir : Path) : RunOptions where
  target := target
  inputDir := inputDir
  outputDir := outputDir
  clean := true
  fixImports := true

/-- Everything in the tree stands in a directory. -/
theorem rooted_pair : pairTree.Rooted := WellFormed.rooted (by decide +kernel) (by decide +kernel)

/-- The stem of the source file is not two dots, however its directory is
spelled. -/
theorem stemName_pair {inputDir : Path} (hplace : inputDir.searched.place [] = ["src"])
    {list : List Text} (h : IsSource pairTree inputDir list) : stemName list ≠ "..".toList := by
  have hfind : pairTree.find (Path.searched ⟨"src"⟩) = .ok (["src"], .directory) := by
    decide +kernel
  have hstem : ∀ list ∈ sources pairTree ⟨"src"⟩, stemName list ≠ "..".toList := by
    decide +kernel
  obtain ⟨content, hnode⟩ := h.file
  rw [show inputDir.searched.place pairTree.current = ["src"] from hplace] at hnode
  exact hstem list ((mem_sources (by decide +kernel) ⟨_, hfind⟩).2 ⟨⟨content, hnode⟩, h.ending⟩)

/-- Runs that give a summary one after the other succeed. -/
theorem ran_both (h : (outcome first tree).1.toBool = true ∧
    (outcome second (outcome first tree).2).1.toBool = true) :
    ∃ summary summary', Ran (Run.run first) tree summary (outcome first tree).2 ∧
      Ran (Run.run second) (outcome first tree).2 summary'
        (outcome second (outcome first tree).2).2 := by
  obtain ⟨summary, hfirst⟩ := ran_after (Run.run first) tree h.1
  obtain ⟨summary', hsecond⟩ := ran_after (Run.run second) (outcome first tree).2 h.2
  exact ⟨summary, summary', hfirst, hsecond⟩

/-- Two targets with the same directories. -/
theorem runs_commute_targets : ∃ summary middle summary' later summarySecond between summaryFirst last,
    Ran (Run.run (pairOptions .zod ⟨"src"⟩ ⟨"out"⟩)) pairTree summary middle ∧
      Ran (Run.run (pairOptions .types ⟨"src"⟩ ⟨"out"⟩)) middle summary' later ∧
      Ran (Run.run (pairOptions .types ⟨"src"⟩ ⟨"out"⟩)) pairTree summarySecond between ∧
      Ran (Run.run (pairOptions .zod ⟨"src"⟩ ⟨"out"⟩)) between summaryFirst last ∧
      ∀ place content, last.node? place = some (.file content) ↔
        later.node? place = some (.file content) := by
  have hleft : Undisturbed (pairOptions .zod ⟨"src"⟩ ⟨"out"⟩)
      (pairOptions .types ⟨"src"⟩ ⟨"out"⟩) pairTree := by
    refine ⟨⟨⟨?_, ?_⟩, ?_, ?_, ?_, fun list => stemName_pair rfl⟩,
      Path.steady_of_up_notMem ?_ _ _, Path.steady_of_up_notMem ?_ _ _⟩ <;> decide +kernel
  have hright : Undisturbed (pairOptions .types ⟨"src"⟩ ⟨"out"⟩)
      (pairOptions .zod ⟨"src"⟩ ⟨"out"⟩) pairTree := by
    refine ⟨⟨⟨?_, ?_⟩, ?_, ?_, ?_, fun list => stemName_pair rfl⟩,
      Path.steady_of_up_notMem ?_ _ _, Path.steady_of_up_notMem ?_ _ _⟩ <;> decide +kernel
  have hruns : (outcome (pairOptions .zod ⟨"src"⟩ ⟨"out"⟩) pairTree).1.toBool = true ∧
      (outcome (pairOptions .types ⟨"src"⟩ ⟨"out"⟩)
        (outcome (pairOptions .zod ⟨"src"⟩ ⟨"out"⟩) pairTree).2).1.toBool = true := by
    decide +kernel
  obtain ⟨summary, summary', hfirst, hsecond⟩ := ran_both hruns
  obtain ⟨summarySecond, summaryFirst, between, last, hranSecond, hranFirst, hsame⟩ :=
    runs_commute (by decide +kernel) rooted_pair ⟨hleft, hright⟩ hfirst hsecond
  exact ⟨summary, _, summary', _, summarySecond, between, summaryFirst, last, hfirst, hsecond,
    hranSecond, hranFirst, hsame⟩

/-- If the input directory of one run is spelled through a directory that the
other run makes, it is found in one order only. -/
theorem not_runs_commute_through_made :
    ¬∀ first second tree middle later summary summary', tree.WellFormed → tree.Rooted →
      KeepsApart first second tree → KeepsApart second first tree →
        Ran (Run.run first) tree summary middle → Ran (Run.run second) middle summary' later →
          ∃ summarySecond summaryFirst between last,
            Ran (Run.run second) tree summarySecond between ∧
            Ran (Run.run first) between summaryFirst last ∧
            ∀ place content, last.node? place = some (.file content) ↔
              later.node? place = some (.file content) := by
  intro h
  have hleft : KeepsApart (pairOptions .types ⟨"src"⟩ ⟨"x"⟩)
      (pairOptions .types ⟨"x/../src"⟩ ⟨"out"⟩) pairTree := by
    refine ⟨⟨?_, ?_⟩, ?_, ?_, ?_, fun list => stemName_pair rfl⟩ <;> decide +kernel
  have hright : KeepsApart (pairOptions .types ⟨"x/../src"⟩ ⟨"out"⟩)
      (pairOptions .types ⟨"src"⟩ ⟨"x"⟩) pairTree := by
    refine ⟨⟨?_, ?_⟩, ?_, ?_, ?_, fun list => stemName_pair rfl⟩ <;> decide +kernel
  have hruns : ((outcome (pairOptions .types ⟨"src"⟩ ⟨"x"⟩) pairTree).1.toBool = true ∧
        (outcome (pairOptions .types ⟨"x/../src"⟩ ⟨"out"⟩)
          (outcome (pairOptions .types ⟨"src"⟩ ⟨"x"⟩) pairTree).2).1.toBool = true) ∧
      ((outcome (pairOptions .types ⟨"x/../src"⟩ ⟨"out"⟩)
        (outcome (pairOptions .types ⟨"src"⟩ ⟨"x"⟩) pairTree).2).2.node?
          ["out", "types", "types", "a.ts"] = some (.file (.text
            "// THIS FILE IS AUTO-GENERATED FOR TYPES. DO NOT EDIT.\n\nexport interface A \x7b b: string \x7d")) ∧
      (outcome (pairOptions .types ⟨"src"⟩ ⟨"x"⟩)
        (outcome (pairOptions .types ⟨"x/../src"⟩ ⟨"out"⟩) pairTree).2).2.node?
          ["out", "types", "types", "a.ts"] = none) := by decide +kernel
  obtain ⟨hboth, hmade, hnone⟩ := hruns
  obtain ⟨summary, summary', hfirst, hsecond⟩ := ran_both hboth
  obtain ⟨_, _, between, last, hranSecond, hranFirst, hsame⟩ :=
    h _ _ _ _ _ _ _ (by decide +kernel) rooted_pair hleft hright hfirst hsecond
  -- the second run makes no output when it comes first
  have hlast := (hsame _ _).2 hmade
  rw [show last = _ from (congrArg Prod.snd hranFirst).symm,
    show between = _ from (congrArg Prod.snd hranSecond).symm] at hlast
  exact absurd (hlast.symm.trans hnone) (by simp)

end InterfaceSchema
