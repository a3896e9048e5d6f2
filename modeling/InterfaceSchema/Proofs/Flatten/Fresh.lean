import InterfaceSchema.Flatten
import Mathlib.Data.List.Nodup

/-!
# Names of extracted interfaces

Flattening makes up a name for each interface that it extracts, and refuses one
that is taken. A name counts as taken if the source declares it or if it was
made up before, so the names made up for a file are different from each other
and from all names of the source. This holds of the spellings: it says nothing
about names that are spelled differently and read as one.
-/

namespace InterfaceSchema.Flatten

/-- The name of a draft that was extracted. -/
def Draft.extracted? (draft : Draft) : Option Text :=
  match draft.origin with
  | some _ => none
  | none => some draft.name

/-- The names made up so far. -/
def State.extracted (state : State) : List Text := state.drafts.filterMap Draft.extracted?

/-- The names made up so far are different from each other and from those that
were taken at the start, and no other names are taken. -/
structure State.Fresh (taken : List Text) (state : State) : Prop where
  declared : ∀ name, name ∈ state.declared ↔ name ∈ taken ∨ name ∈ state.extracted
  apart : ∀ name ∈ state.extracted, name ∉ taken
  nodup : state.extracted.Nodup

variable {taken : List Text} {state after : State}

/-- A change of an element that a function does not see leaves its results. -/
theorem filterMap_modify {α β : Type} {change : α → α} {see : α → Option β}
    (h : ∀ item, see (change item) = see item) (items : List α) (index : Nat) :
    (items.modify index change).filterMap see = items.filterMap see := by
  induction items generalizing index with
  | nil => rw [List.modify_nil]
  | cons item rest ih =>
    cases index with
    | zero => rw [List.modify_zero_cons, List.filterMap_cons, List.filterMap_cons, h]
    | succ index => rw [List.modify_succ_cons, List.filterMap_cons, List.filterMap_cons, ih]

/-- An interface is only extracted under a name that is not taken, which is
taken from then on. -/
theorem State.Fresh.extract (h : state.Fresh taken) {parent : Nat} {parentName : Text} {inline : Inline}
    (hafter : state.extract parent parentName inline = .ok after) : after.Fresh taken := by
  let name := Naming.extracted parentName inline.head.key
  rw [State.extract] at hafter
  split at hafter
  · cases hafter
  next hfree =>
  have hfree : name ∉ state.declared := fun hmem => hfree (List.contains_iff_mem.2 hmem)
  obtain ⟨htaken, hmade⟩ := not_or.1 (mt (h.declared name).2 hfree)
  cases hafter
  let rename (draft : Draft) : Draft :=
    { draft with renamed := draft.renamed ++ [(inline.type.span, name)] }
  have hrename (draft : Draft) : (rename draft).extracted? = draft.extracted? := rfl
  have hextracted : State.extracted
      { drafts := state.drafts.modify parent rename ++
          [⟨name, none, propertiesOf inline.members, []⟩]
        layout := insertBefore (.interface parent) (.interface state.drafts.length) state.layout
        declared := name :: state.declared } = state.extracted ++ [name] := by
    rw [State.extracted, List.filterMap_append, filterMap_modify hrename]
    rfl
  constructor
  · intro other
    rw [hextracted, List.mem_cons, h.declared other, List.mem_append, List.mem_singleton, or_comm,
      or_assoc]
  · intro other hother
    rw [hextracted] at hother
    rcases List.mem_append.1 hother with hother | hother
    · exact h.apart other hother
    · rw [List.mem_singleton.1 hother]
      exact htaken
  · rw [hextracted, List.nodup_append_comm, List.singleton_append, List.nodup_cons]
    exact ⟨hmade, h.nodup⟩

/-- What extracting an interface preserves, extracting all interfaces from one
preserves. -/
theorem extractAll_preserves {P : State → Prop}
    (hextract : ∀ {before next : State} {parent : Nat} {parentName : Text} {inline : Inline},
      P before → before.extract parent parentName inline = .ok next → P next)
    {parent : Nat} {parentName : Text} {list : List Inline} (h : P state)
    (hafter : state.extractAll parent parentName list = .ok after) : P after := by
  induction list generalizing state with
  | nil =>
    cases hafter
    exact h
  | cons inline rest ih =>
    rw [State.extractAll] at hafter
    cases hfirst : state.extract parent parentName inline with
    | error collision =>
      rw [hfirst] at hafter
      cases hafter
    | ok next =>
      rw [hfirst] at hafter
      exact ih (hextract h hfirst) hafter

/-- So it is with extracting the interfaces from those in the queue. -/
theorem flattenFrom_preserves {P : State → Prop}
    (hextract : ∀ {before next : State} {parent : Nat} {parentName : Text} {inline : Inline},
      P before → before.extract parent parentName inline = .ok next → P next)
    {index count : Nat} (h : P state) (hafter : state.flattenFrom index count = .ok after) :
    P after := by
  induction count generalizing state index with
  | zero =>
    cases hafter
    exact h
  | succ count ih =>
    rw [State.flattenFrom] at hafter
    split at hafter
    · cases hafter
      exact h
    next draft hdraft =>
    cases hround : state.extractAll index draft.name (inlines draft.properties) with
    | error collision =>
      rw [hround] at hafter
      cases hafter
    | ok next =>
      rw [hround] at hafter
      exact ih (extractAll_preserves hextract h hround) hafter

/-- At the start, the names in the source are taken. -/
theorem fresh_ofFile (file : SourceFile) : (State.ofFile file).Fresh file.declaredNames := by
  have hnone : (State.ofFile file).extracted = [] := by
    rw [State.extracted, State.ofFile, List.filterMap_map, List.filterMap_eq_nil_iff]
    exact fun decl _ => rfl
  constructor
  · intro name
    rw [hnone]
    exact (or_iff_left List.not_mem_nil).symm
  · rw [hnone]
    exact fun name hname => absurd hname List.not_mem_nil
  · rw [hnone]
    exact List.nodup_nil

/-- The names made up for a file are different from each other and from all
names in the source. -/
theorem fresh_of_flattenFrom {file : SourceFile} {count : Nat}
    (h : (State.ofFile file).flattenFrom 0 count = .ok state) : state.Fresh file.declaredNames :=
  flattenFrom_preserves (fun hbefore hnext => hbefore.extract hnext) (fresh_ofFile file) h

/-- With names made up, no name is declared more often than in the source,
unless the source does not declare it. -/
theorem State.Fresh.count_le (h : state.Fresh taken) (name : Text) :
    (taken ++ state.extracted).count name ≤ max (taken.count name) 1 := by
  rw [List.count_append]
  by_cases hname : name ∈ state.extracted
  · have hone := List.nodup_iff_count_le_one.1 h.nodup name
    rw [List.count_eq_zero_of_not_mem (h.apart name hname)]
    omega
  · rw [List.count_eq_zero_of_not_mem hname]
    omega

end InterfaceSchema.Flatten
