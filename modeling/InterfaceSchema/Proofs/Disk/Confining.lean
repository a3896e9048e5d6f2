import InterfaceSchema.Proofs.Disk.Making

/-!
# What steps change, whether or not they succeed

Steps that fail may have changed the tree before. What they change is told by
two sets of places: those where files may be new or hold something new, and a
part that holds all places where anything may be new. Steps one after another
stay within the same places, wherever they stop.
-/

namespace InterfaceSchema

open FileTree

/-- A tree that has grown, with new content for files in some places only, and
with nothing new outside a part. -/
structure FileTree.Confined (touched part : Place → Prop) (tree later : FileTree) : Prop
    extends Grows touched tree later where
  elsewhere : ∀ place, ¬part place → later.node? place = tree.node? place

namespace FileTree.Confined

variable {touched part : Place → Prop} {first second third : FileTree}

/-- A tree that does not change. -/
theorem refl (touched part : Place → Prop) (tree : FileTree) :
    Confined touched part tree tree where
  toGrows := .refl touched tree
  elsewhere _ _ := rfl

/-- One change after another. -/
theorem trans (h : Confined touched part first second) (h' : Confined touched part second third) :
    Confined touched part first third where
  toGrows := h.toGrows.trans h'.toGrows
  elsewhere place hplace := (h'.elsewhere place hplace).trans (h.elsewhere place hplace)

end FileTree.Confined

namespace Disk

/-- The tree that steps leave behind, whether or not they succeed. -/
def after {ε α : Type} (action : ExceptT ε (StateM FileTree) α) (tree : FileTree) : FileTree :=
  (Id.run (action.run tree)).2

section Parts

variable {ε α β : Type} {touched part : Place → Prop} {tree later : FileTree} {result : α}

/-- What steps that succeed leave behind. -/
theorem after_of_ran {action : ExceptT ε (StateM FileTree) α} (h : Ran action tree result later) :
    after action tree = later := congrArg Prod.snd h

/-- Steps that give something succeed. -/
theorem ran_after (action : ExceptT ε (StateM FileTree) α) (tree : FileTree)
    (h : (Id.run (action.run tree)).1.toBool = true) :
    ∃ result, Ran action tree result (after action tree) := by
  rcases hran : Id.run (action.run tree) with ⟨error | result, later⟩
  · rw [hran] at h
    cases h
  · exact ⟨result, hran.trans (congrArg (fun found => (Except.ok result, found.2)) hran.symm)⟩

/-- A step that cannot fail. -/
theorem after_lift (action : StateM FileTree α) (tree : FileTree) :
    after (ExceptT.lift action : ExceptT ε (StateM FileTree) α) tree =
      (Id.run (action tree)).2 := by
  simp only [after, ExceptT.lift, ExceptT.mk, ExceptT.run, Functor.map, StateT.map, Id.run]
  rcases action tree with ⟨value, middle⟩
  simp [bind, pure]

/-- A step that is reported if it fails. -/
theorem after_step (doing : Doing) (action : StateM FileTree (Except DiskError α))
    (tree : FileTree) : after (step doing action) tree = (Id.run (action tree)).2 := by
  simp only [after, step, ExceptT.mk, ExceptT.run, bind, StateT.bind, Id.run]
  rcases action tree with ⟨error | value, middle⟩ <;> rfl

/-- Steps that are part of something wider. -/
theorem after_within (doing : Doing) (action : DiskM (StateM FileTree) α) (tree : FileTree) :
    after (within doing action) tree = after action tree := by
  simp only [after, within, ExceptT.mk, ExceptT.run, bind, StateT.bind, Id.run]
  rcases action tree with ⟨error | value, middle⟩ <;> rfl

section Bind

variable {action : ExceptT ε (StateM FileTree) β} {next : β → ExceptT ε (StateM FileTree) α}

/-- What follows steps that succeed. -/
theorem after_bind_of_ran {value : β} {middle : FileTree} (h : Ran action tree value middle) :
    after (action >>= next) tree = after (next value) middle := by
  rw [after, run_bind, show Id.run (action.run tree) = _ from h]
  rfl

/-- Nothing follows steps that fail. -/
theorem after_bind_of_not_ran (h : ∀ value middle, ¬Ran action tree value middle) :
    after (action >>= next) tree = after action tree := by
  rw [after, run_bind, after]
  rcases haction : Id.run (action.run tree) with ⟨error | value, middle⟩
  · rfl
  · exact absurd haction (h value middle)

/-- Steps one after another stay within the places that each of them stays
within. -/
theorem confined_bind (h : Confined touched part tree (after action tree))
    (hnext : ∀ value middle, Ran action tree value middle → Confined touched part tree middle →
      Confined touched part middle (after (next value) middle)) :
    Confined touched part tree (after (action >>= next) tree) := by
  by_cases hran : ∃ value middle, Ran action tree value middle
  · obtain ⟨value, middle, hran⟩ := hran
    rw [after_bind_of_ran hran]
    rw [after_of_ran hran] at h
    exact h.trans (hnext value middle hran h)
  · rw [after_bind_of_not_ran fun value middle hvalue => hran ⟨value, middle, hvalue⟩]
    exact h

end Bind

end Parts

section Files

variable {touched part : Place → Prop} {tree : FileTree} {path : Path} {text : Text}

/-- A path within which a file may be given a text. -/
structure Open (touched part : Place → Prop) (current : Place) (path : Path) : Prop where
  place : touched (path.place current)
  route : ∀ entered ∈ path.route current, part entered

/-- Giving a file a text. -/
theorem overwrite_confined (hpath : Open touched part tree.current path) (text : Text) :
    Confined touched part tree (after (overwrite path text) tree) := by
  have hafter : after (overwrite path text) tree =
      (tree.settle (tree.write path (.text text))).2 := after_step _ _ tree
  rw [hafter]
  rcases hwrite : tree.write path (.text text) with error | later
  · exact .refl _ _ tree
  · refine ⟨(write_ok hwrite).grows.mono ?_, fun place hplace => ?_⟩
    · rintro place rfl
      exact hpath.place
    · exact write_elsewhere hwrite fun hmem => hplace (hpath.route place hmem)

/-- Giving a file a text, in a directory that is made if it is missing. -/
theorem save_confined (hpath : Open touched part tree.current path) (text : Text) :
    Confined touched part tree (after (save path text) tree) := by
  rw [save]
  split
  · next parent hparent =>
    refine confined_bind ?_ fun _ middle _ hmiddle => ?_
    · rw [after_step]
      refine ⟨(makeDirs_grows tree parent).mono fun _ => False.elim, fun place hplace => ?_⟩
      exact makeDirs_elsewhere tree fun hmem =>
        hplace (hpath.route place (route_parent_subset hparent _ hmem))
    · exact overwrite_confined (hmiddle.current ▸ hpath) text
  · exact overwrite_confined hpath text

/-- Giving a file a text unless it has this text already. -/
theorem update_confined (hpath : Open touched part tree.current path) (text : Text) :
    Confined touched part tree (after (update path text) tree) := by
  rw [update]
  refine confined_bind ?_ fun existing middle _ hmiddle => ?_
  · rw [after_lift]
    exact .refl _ _ tree
  · have hsave : Confined touched part middle
        (after (do save path text; return .written : DiskM (StateM FileTree) WriteResult) middle) :=
      confined_bind (save_confined (hmiddle.current ▸ hpath) text) fun _ last _ _ =>
        .refl _ _ last
    split
    · split
      · exact .refl _ _ middle
      · exact hsave
    · exact hsave

end Files

end Disk

end InterfaceSchema
