import InterfaceSchema.Disk.Files
import InterfaceSchema.Proofs.Disk.Growth

/-!
# Steps on a tree

Steps that succeed are taken apart here: each part succeeds, from the tree
that the parts before it have left. Reading leaves the tree alone, and saving
a file is all that writing does to it.
-/

namespace InterfaceSchema.Disk

/-- Steps that succeed on a tree, what they give and the tree they leave
behind. -/
def Ran {ε α : Type} (action : ExceptT ε (StateM FileTree) α) (tree : FileTree) (result : α)
    (later : FileTree) : Prop :=
  Id.run (action.run tree) = (.ok result, later)

section Parts

variable {ε α β : Type} {tree later : FileTree} {result : α}

/-- A step that does nothing gives its value and leaves the tree alone. -/
theorem pure_apply (value : α) (tree : FileTree) :
    (pure value : StateM FileTree α) tree = (value, tree) := rfl

/-- Steps that do nothing. -/
theorem ran_pure {value : α} : Ran (pure value : ExceptT ε (StateM FileTree) α) tree result later ↔
    value = result ∧ tree = later := by
  simp [Ran, pure_apply, Id.run]

/-- Failing is not succeeding. -/
theorem not_ran_throw {error : ε} :
    ¬Ran (throw error : ExceptT ε (StateM FileTree) α) tree result later := by
  simp [Ran, pure_apply, Id.run]

/-- Steps one after another stop where the first of them fails. -/
theorem run_bind (action : ExceptT ε (StateM FileTree) β)
    (next : β → ExceptT ε (StateM FileTree) α) (tree : FileTree) :
    Id.run ((action >>= next).run tree) =
      match Id.run (action.run tree) with
      | (.ok value, middle) => Id.run ((next value).run middle)
      | (.error error, middle) => (.error error, middle) := by
  simp only [bind, ExceptT.bind, ExceptT.mk, ExceptT.run, StateT.bind, ExceptT.bindCont, Id.run]
  rcases action tree with ⟨_ | value, middle⟩ <;> rfl

/-- Steps one after another. -/
theorem ran_bind {action : ExceptT ε (StateM FileTree) β}
    {next : β → ExceptT ε (StateM FileTree) α} :
    Ran (action >>= next) tree result later ↔
      ∃ value middle, Ran action tree value middle ∧ Ran (next value) middle result later := by
  rw [Ran, run_bind]
  rcases haction : Id.run (action.run tree) with ⟨error | value, middle⟩
  · simp [Ran, haction]
  · constructor
    · exact fun h => ⟨value, middle, haction, h⟩
    · rintro ⟨value', middle', hran, h⟩
      cases haction.symm.trans hran
      exact h

/-- A step that cannot fail. -/
theorem ran_lift {action : StateM FileTree α} :
    Ran (ExceptT.lift action : ExceptT ε (StateM FileTree) α) tree result later ↔
      Id.run (action tree) = (result, later) := by
  simp only [Ran, ExceptT.lift, ExceptT.mk, ExceptT.run, Functor.map, StateT.map, Id.run]
  rcases action tree with ⟨value, middle⟩
  simp [bind, pure]

/-- A step that is reported if it fails. -/
theorem ran_step {doing : Doing} {action : StateM FileTree (Except DiskError α)} :
    Ran (step doing action) tree result later ↔ Id.run (action tree) = (.ok result, later) := by
  simp only [Ran, step, ExceptT.mk, ExceptT.run, bind, StateT.bind, Id.run]
  rcases action tree with ⟨error | value, middle⟩ <;> simp [pure_apply]

/-- Steps that are part of something wider. -/
theorem ran_within {doing : Doing} {action : DiskM (StateM FileTree) α} :
    Ran (within doing action) tree result later ↔ Ran action tree result later := by
  simp only [Ran, within, ExceptT.mk, ExceptT.run, bind, StateT.bind, Id.run]
  rcases action tree with ⟨error | value, middle⟩ <;> simp [pure_apply]

end Parts

/-- Steps that fail on a tree, why, and the tree they leave behind. -/
def Failed {ε α : Type} (action : ExceptT ε (StateM FileTree) α) (tree : FileTree) (error : ε)
    (later : FileTree) : Prop :=
  Id.run (action.run tree) = (.error error, later)

section Failing

variable {ε α β : Type} {tree middle later : FileTree} {error : ε} {value : β}
  {action : ExceptT ε (StateM FileTree) β} {next : β → ExceptT ε (StateM FileTree) α}

/-- Failing changes nothing. -/
theorem failed_throw (error : ε) (tree : FileTree) :
    Failed (throw error : ExceptT ε (StateM FileTree) α) tree error tree := rfl

/-- Nothing follows steps that fail. -/
theorem Failed.bind (h : Failed action tree error later) :
    Failed (action >>= next) tree error later := by
  rw [Failed, run_bind, show Id.run (action.run tree) = _ from h]

/-- What follows steps that succeed may fail. -/
theorem Ran.bind_failed (h : Ran action tree value middle)
    (hnext : Failed (next value) middle error later) :
    Failed (action >>= next) tree error later := by
  rw [Failed, run_bind, show Id.run (action.run tree) = _ from h]
  exact hnext

/-- A step that fails is reported. -/
theorem failed_step {doing : Doing} {step : StateM FileTree (Except DiskError α)}
    {cause : DiskError} (h : Id.run (step tree) = (.error cause, later)) :
    Failed (Disk.step doing step) tree ⟨[doing], cause⟩ later := by
  simp only [Failed, Disk.step, ExceptT.mk, ExceptT.run, bind, StateT.bind, Id.run]
  rw [show step tree = _ from h]
  rfl

/-- Reading that fails changes nothing. -/
theorem failed_read {path : Path} {cause : DiskError} (h : tree.readText path = .error cause) :
    Failed (read path) tree ⟨[.reading path], cause⟩ tree :=
  failed_step (congrArg (fun found : Except DiskError Text => (found, tree)) h)

end Failing

section Files

open FileTree

variable {tree later : FileTree} {path : Path} {text : Text}

/-- Going on with a changed tree. -/
theorem settle_ok {changed : Except DiskError FileTree} {result : Unit}
    (h : tree.settle changed = (.ok result, later)) : changed = .ok later := by
  cases changed with
  | error cause => simp [settle] at h
  | ok changed => simpa [settle] using h

/-- Reading leaves the tree alone. -/
theorem read_ok (h : Ran (read path) tree text later) :
    tree.readText path = .ok text ∧ later = tree := by
  rw [read, ran_step] at h
  obtain ⟨htext, htree⟩ := Prod.mk.inj h
  exact ⟨htext, htree.symm⟩

/-- Giving a file a text. -/
theorem overwrite_ok {result : Unit} (h : Ran (overwrite path text) tree result later) :
    Saved tree path text later := by
  rw [overwrite, ran_step] at h
  exact write_ok (settle_ok h)

/-- Giving a file a text, in a directory that is made if it is missing. -/
theorem save_ok {result : Unit} (h : Ran (save path text) tree result later) :
    Saved tree path text later := by
  rw [save] at h
  split at h
  · next parent hparent =>
    obtain ⟨_, middle, hdirs, hwrite⟩ := ran_bind.1 h
    have hgrows := makeDirs_grows tree parent
    rw [ran_step] at hdirs
    rw [show tree.makeDirs parent = (.ok _, middle) from hdirs] at hgrows
    exact (overwrite_ok hwrite).of_grows hgrows
  · exact overwrite_ok h

/-- Giving a file a text unless it has this text already. -/
theorem update_ok {result : WriteResult} (h : Ran (update path text) tree result later) :
    Saved tree path text later := by
  rw [update] at h
  obtain ⟨existing, middle, hread, hrest⟩ := ran_bind.1 h
  obtain ⟨hexisting, rfl⟩ := Prod.mk.inj (ran_lift.1 hread)
  split at hrest
  · next held =>
    split at hrest
    · next heq =>
      obtain ⟨-, rfl⟩ := ran_pure.1 hrest
      exact .of_readText (heq ▸ hexisting)
    · obtain ⟨_, middle, hsave, hdone⟩ := ran_bind.1 hrest
      obtain ⟨-, rfl⟩ := ran_pure.1 hdone
      exact save_ok hsave
  · obtain ⟨_, middle, hsave, hdone⟩ := ran_bind.1 hrest
    obtain ⟨-, rfl⟩ := ran_pure.1 hdone
    exact save_ok hsave

/-- Removing a directory with all it holds. -/
theorem removeDirectory_ok {result : Unit} (h : Ran (removeDirectory path) tree result later) :
    later = tree.remove (path.place tree.current) := by
  rw [removeDirectory, ran_step] at h
  have hremove : tree.removeDir path = .ok later := settle_ok h
  rw [FileTree.removeDir] at hremove
  cases hfind : tree.find path with
  | error cause => simp [hfind, bind, Except.bind] at hremove
  | ok found =>
    rw [hfind] at hremove
    obtain ⟨place, _ | content⟩ := found
    · obtain rfl := find_directory hfind
      exact (Except.ok.inj hremove).symm
    · simp [bind, Except.bind] at hremove

/-- Whether there is a file. -/
theorem isFile_ok {result : Bool} (h : Ran (ExceptT.lift (Disk.isFile path) :
    DiskM (StateM FileTree) Bool) tree result later) :
    result = (tree.read path).toBool ∧ later = tree := by
  obtain ⟨hresult, htree⟩ := Prod.mk.inj (ran_lift.1 h)
  exact ⟨hresult.symm, htree.symm⟩

end Files

end InterfaceSchema.Disk
