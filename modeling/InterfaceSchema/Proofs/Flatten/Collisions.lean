import InterfaceSchema.Proofs.Flatten.Fresh
import InterfaceSchema.Proofs.Flatten.Refinement
import Mathlib.Data.List.Induction

/-!
# When names collide

Flattening finds object types breadth first: those in the interfaces of the
source come first, in source order, then those in the interfaces just extracted,
and so on, one generation after the other. It takes the name of each one when it
finds it, and fails at the first one whose name is taken. The generations are
described here without a queue. What is left to be found can be said of every
queue: the object types in its first interface, and then what is left to be
found when the interfaces extracted from it stand at its end.
-/

namespace InterfaceSchema.Flatten

/-- An object type in place of a property's type, as the interface that comes
out of it. -/
structure Found extends Hoisted where
  /-- The name of the property. -/
  span : Span

/-- The object type of a property of the interface `parent`, when it is found. -/
def Inline.found (parent : Text) (inline : Inline) : Found where
  name := Naming.extracted parent inline.head.key
  properties := propertiesOf inline.members
  span := inline.head.nameSpan

/-- The object types that stand directly in an interface. -/
def Hoisted.found (hoisted : Hoisted) : List Found :=
  (inlines hoisted.properties).map (Inline.found hoisted.name)

/-- The object types that stand directly in the interfaces of a generation, as
the interfaces of the next one. -/
def nextGeneration (generation : List Hoisted) : List Found := generation.flatMap Hoisted.found

/-- An interface as a draft that nothing was extracted from. -/
def Hoisted.draft (hoisted : Hoisted) : Draft := ⟨hoisted.name, none, hoisted.properties, []⟩

/-- How many interfaces there are in a generation and all that follow. -/
def generationWeight (generation : List Hoisted) : Nat := workload (generation.map Hoisted.draft)

/-- Every interface comes out of one generation. -/
theorem generationWeight_next (generation : List Hoisted) :
    generationWeight ((nextGeneration generation).map Found.toHoisted) + generation.length =
      generationWeight generation := by
  induction generation with
  | nil => rfl
  | cons hoisted rest ih =>
    have hfresh : (hoisted.found.map Found.toHoisted).map Hoisted.draft =
        (inlines hoisted.properties).map (Draft.fresh hoisted.name) := by
      rw [Hoisted.found, List.map_map, List.map_map]
      rfl
    have hnext : nextGeneration (hoisted :: rest) = hoisted.found ++ nextGeneration rest := rfl
    have hweight : generationWeight (hoisted :: rest) =
        1 + inlinesWeight (inlines hoisted.properties) + generationWeight rest := rfl
    rw [hweight, ← ih, hnext, generationWeight, List.map_append, List.map_append,
      workload_append, hfresh, workload_fresh, List.length_cons]
    rw [generationWeight]
    omega

/-- The object types in a generation of interfaces, then those in the interfaces
that come out of them, and so on. -/
def breadthFirst (generation : List Hoisted) : List Found :=
  match generation with
  | [] => []
  | hoisted :: rest =>
    nextGeneration (hoisted :: rest) ++
      breadthFirst ((nextGeneration (hoisted :: rest)).map Found.toHoisted)
termination_by generationWeight generation
decreasing_by
  have h := generationWeight_next (hoisted :: rest)
  rw [List.length_cons] at h
  omega

/-- All object types in place of the types of properties of a file's interfaces,
breadth first. -/
def foundIn (file : SourceFile) : List Found :=
  breadthFirst (file.interfaces.map fun decl => ⟨decl.name, propertiesOf decl.members⟩)

/-- The names of the interfaces that come out of object types. -/
def namesOf (list : List Found) : List Text := list.map fun found => found.name

/-- No name is taken, by a declaration or by another one of the list. -/
def Free (declared names : List Text) : Prop := names.Nodup ∧ ∀ name ∈ names, name ∉ declared

/-- Take the name of an object type that was found. -/
def reserve (declared : List Text) (found : Found) : Except NameCollision (List Text) :=
  if declared.contains found.name then .error ⟨found.name, found.span⟩
  else .ok (found.name :: declared)

section Generations

/-- The generations one after the other, also if there are none. -/
theorem breadthFirst_eq (generation : List Hoisted) :
    breadthFirst generation = nextGeneration generation ++
      breadthFirst ((nextGeneration generation).map Found.toHoisted) := by
  cases generation with
  | nil =>
    have hnil : breadthFirst [] = [] := by rw [breadthFirst]
    exact hnil.trans hnil.symm
  | cons hoisted rest => rw [breadthFirst]

/-- The next generation of two lists of interfaces. -/
theorem nextGeneration_append (first second : List Hoisted) :
    nextGeneration (first ++ second) = nextGeneration first ++ nextGeneration second :=
  List.flatMap_append

/-- Interfaces at the start of a generation can be worked off before the others:
what comes out of them then stands behind the others. -/
theorem breadthFirst_append (first second : List Hoisted) :
    breadthFirst (first ++ second) = nextGeneration first ++
      breadthFirst (second ++ (nextGeneration first).map Found.toHoisted) := by
  induction hweight : generationWeight (first ++ second) using Nat.strongRecOn
    generalizing first second with
  | ind weight ih =>
    subst hweight
    cases hcons : first ++ second with
    | nil =>
      obtain ⟨rfl, rfl⟩ := List.append_eq_nil_iff.1 hcons
      rfl
    | cons hoisted rest =>
      have hless := generationWeight_next (first ++ second)
      have hpos : 0 < (first ++ second).length := by simp [hcons]
      rw [nextGeneration_append, List.map_append] at hless
      have hrest := ih (generationWeight ((nextGeneration first).map Found.toHoisted ++
        (nextGeneration second).map Found.toHoisted)) (by omega) _ _ rfl
      -- the generation after the next one starts with what comes out of the first interfaces
      rw [← hcons, breadthFirst_eq (first ++ second), nextGeneration_append, List.map_append,
        hrest, breadthFirst_eq (second ++ _), nextGeneration_append, List.map_append]
      simp only [List.append_assoc]

end Generations

section Names

variable {declared : List Text} {list before after : List Found} {found : Found}

/-- The names of two lists. -/
theorem namesOf_append (first second : List Found) :
    namesOf (first ++ second) = namesOf first ++ namesOf second := List.map_append

/-- Free names can be reserved one after the other. -/
theorem foldlM_reserve_of_free (h : Free declared (namesOf list)) :
    list.foldlM reserve declared = .ok ((namesOf list).reverse ++ declared) := by
  induction list generalizing declared with
  | nil => rfl
  | cons found rest ih =>
    obtain ⟨hnodup, hfree⟩ := h
    obtain ⟨hfound, hrest⟩ : found.name ∉ namesOf rest ∧ (namesOf rest).Nodup :=
      List.nodup_cons.1 hnodup
    have hhere : reserve declared found = .ok (found.name :: declared) := by
      have hnot : found.name ∉ declared := hfree found.name List.mem_cons_self
      rw [reserve, if_neg (by simpa using hnot)]
    have hlater : Free (found.name :: declared) (namesOf rest) := by
      refine ⟨hrest, fun name hname hmem => ?_⟩
      rcases List.mem_cons.1 hmem with rfl | hmem
      · exact hfound hname
      · exact hfree name (List.mem_cons_of_mem _ hname) hmem
    have hreverse : (namesOf rest).reverse ++ found.name :: declared =
        (namesOf (found :: rest)).reverse ++ declared := by simp [namesOf]
    rw [List.foldlM_cons, hhere, ← hreverse]
    exact ih hlater

/-- Behind free names, a name that is taken is reported. -/
theorem foldlM_reserve_of_taken (h : Free declared (namesOf before))
    (htaken : found.name ∈ declared ++ namesOf before) (after : List Found) :
    (before ++ found :: after).foldlM reserve declared = .error ⟨found.name, found.span⟩ := by
  have hhere : reserve ((namesOf before).reverse ++ declared) found =
      .error ⟨found.name, found.span⟩ := by
    rw [reserve, if_pos]
    rw [List.contains_iff_mem, List.mem_append, List.mem_reverse, or_comm]
    exact List.mem_append.1 htaken
  rw [List.foldlM_append, foldlM_reserve_of_free h]
  show List.foldlM reserve _ (found :: after) = _
  rw [List.foldlM_cons, hhere]
  rfl

/-- All names are free, or there is a first one that is taken. -/
theorem free_or_taken (declared : List Text) (list : List Found) :
    Free declared (namesOf list) ∨ ∃ before found after, list = before ++ found :: after ∧
      Free declared (namesOf before) ∧ found.name ∈ declared ++ namesOf before := by
  induction list using List.reverseRecOn with
  | nil => exact .inl ⟨List.nodup_nil, fun name hname => absurd hname List.not_mem_nil⟩
  | append_singleton list last ih =>
    rcases ih with hfree | ⟨before, found, after, rfl, hbefore, htaken⟩
    · by_cases htaken : last.name ∈ declared ++ namesOf list
      · exact .inr ⟨list, last, [], rfl, hfree, htaken⟩
      · obtain ⟨hdeclared, hlist⟩ := not_or.1 (mt List.mem_append.2 htaken)
        obtain ⟨hnodup, hapart⟩ := hfree
        have hlast : namesOf (list ++ [last]) = namesOf list ++ [last.name] := namesOf_append _ _
        rw [hlast]
        refine .inl ⟨?_, fun name hname => ?_⟩
        · rw [List.nodup_append_comm, List.singleton_append, List.nodup_cons]
          exact ⟨hlist, hnodup⟩
        · rcases List.mem_append.1 hname with hname | hname
          · exact hapart name hname
          · rwa [List.mem_singleton.1 hname]
    · exact .inr ⟨before, found, after ++ [last], by simp, hbefore, htaken⟩

/-- Where a name is taken, not all names are free. -/
theorem Free.not_mem (h : Free declared (namesOf (before ++ found :: after))) :
    found.name ∉ declared ++ namesOf before := by
  have hsplit : namesOf (before ++ found :: after) =
      namesOf before ++ found.name :: namesOf after := namesOf_append _ _
  rw [hsplit] at h
  obtain ⟨hnodup, hfree⟩ := h
  rw [List.mem_append, not_or]
  refine ⟨hfree found.name (by simp), fun hmem => ?_⟩
  exact (List.nodup_append.1 hnodup).2.2 _ hmem _ List.mem_cons_self rfl

end Names

section Run

/-- Extracting an interface reserves its name. -/
theorem extract_declared (state : State) (parent : Nat) (name : Text) (inline : Inline) :
    (state.extract parent name inline).map State.declared =
      reserve state.declared (inline.found name) := by
  have hreserve : reserve state.declared (inline.found name) =
      if state.declared.contains (Naming.extracted name inline.head.key) then
        .error ⟨Naming.extracted name inline.head.key, inline.head.nameSpan⟩
      else .ok (Naming.extracted name inline.head.key :: state.declared) := rfl
  rw [hreserve, State.extract]
  dsimp only
  split <;> rfl

/-- Extracting all interfaces from one reserves their names in order. -/
theorem extractAll_declared (state : State) (parent : Nat) (name : Text) (list : List Inline) :
    (state.extractAll parent name list).map State.declared =
      (list.map (Inline.found name)).foldlM reserve state.declared := by
  induction list generalizing state with
  | nil => rfl
  | cons inline rest ih =>
    have hhere := extract_declared state parent name inline
    rw [State.extractAll, List.map_cons, List.foldlM_cons, ← hhere]
    cases hnext : state.extract parent name inline with
    | error collision => rfl
    | ok next => exact ih next

/-- What comes out of a draft is what is left for the queue. -/
theorem hoisted_leave (after : List Draft) (draft : Draft) :
    (draft.leave after).map Draft.hoisted =
      after.map Draft.hoisted ++ (nextGeneration [draft.hoisted]).map Found.toHoisted := by
  rw [Draft.leave, List.map_append, nextGeneration, List.flatMap_singleton, Hoisted.found,
    List.map_map, List.map_map]
  rfl

/-- Working off the queue reserves the names of all that is found, breadth
first. -/
theorem flattenFrom_declared (count : Nat) {done todo : List Draft} {layout : List Slot}
    {declared : List Text} (hcount : workload todo = count)
    (hcomplete : Complete layout (done.length + todo.length)) :
    (State.flattenFrom ⟨done ++ todo, layout, declared⟩ done.length count).map State.declared =
      (breadthFirst (todo.map Draft.hoisted)).foldlM reserve declared := by
  induction count generalizing done todo layout declared with
  | zero =>
    cases todo with
    | cons draft rest => rw [workload] at hcount; omega
    | nil =>
      rw [List.map_nil, breadthFirst]
      rfl
  | succ count ih =>
    cases todo with
    | nil => simp [workload] at hcount
    | cons draft after =>
      have hdraft : (done ++ draft :: after)[done.length]? = some draft := by simp
      have hqueue : breadthFirst ((draft :: after).map Draft.hoisted) =
          (inlines draft.properties).map (Inline.found draft.name) ++
            breadthFirst ((draft.leave after).map Draft.hoisted) := by
        rw [hoisted_leave, List.map_cons, ← List.singleton_append, breadthFirst_append,
          nextGeneration, List.flatMap_singleton]
        rfl
      have hround := extractAll_declared ⟨done ++ draft :: after, layout, declared⟩ done.length
        draft.name (inlines draft.properties)
      rw [State.flattenFrom, hqueue, List.foldlM_append]
      simp only [hdraft]
      rw [← hround]
      cases hworked : State.extractAll ⟨done ++ draft :: after, layout, declared⟩ done.length
          draft.name (inlines draft.properties) with
      | error collision => rfl
      | ok worked =>
        obtain ⟨slots, names, rfl, hslots, hwork, -⟩ := extractAll_round hcomplete hworked
        have hindex : done.length + 1 = (done ++ [draft.emptied]).length := by simp
        rw [hindex]
        exact ih (by omega) hslots

/-- Flattening a file reserves the names of all that is found in it. -/
theorem flattenFrom_ofFile_declared (file : SourceFile) :
    ((State.ofFile file).flattenFrom 0 (totalWeight file)).map State.declared =
      (foundIn file).foldlM reserve file.declaredNames := by
  have hcomplete := complete_ofFile file
  have hrun := @flattenFrom_declared (totalWeight file) [] _ _ file.declaredNames
    (workload_ofDecl file) hcomplete
  rw [List.map_map] at hrun
  exact hrun

/-- If all names are free, the file is flattened, and the names made up are
those of what is found. -/
theorem flattenFrom_ofFile_of_free {file : SourceFile} (h : Free file.declaredNames (namesOf (foundIn file))) :
    ∃ state, (State.ofFile file).flattenFrom 0 (totalWeight file) = .ok state ∧
      state.extracted.Perm (namesOf (foundIn file)) := by
  have hrun := flattenFrom_ofFile_declared file
  rw [foldlM_reserve_of_free h] at hrun
  cases hstate : (State.ofFile file).flattenFrom 0 (totalWeight file) with
  | error collision =>
    rw [hstate] at hrun
    cases hrun
  | ok state =>
    rw [hstate] at hrun
    have hdeclared := Except.ok.inj hrun
    have hfresh := fresh_of_flattenFrom hstate
    refine ⟨state, rfl, (List.perm_ext_iff_of_nodup hfresh.nodup h.1).2 fun name => ?_⟩
    have htaken := hfresh.declared name
    rw [hdeclared, List.mem_append, List.mem_reverse] at htaken
    constructor
    · intro hname
      exact (htaken.2 (.inr hname)).resolve_right (hfresh.apart name hname)
    · intro hname
      exact (htaken.1 (.inl hname)).resolve_left (h.2 name hname)

/-- If a name is taken, the first such name and its property are reported. -/
theorem flattenFrom_ofFile_of_taken {file : SourceFile} {before after : List Found} {found : Found}
    (hfound : foundIn file = before ++ found :: after) (hfree : Free file.declaredNames (namesOf before))
    (htaken : found.name ∈ file.declaredNames ++ namesOf before) :
    (State.ofFile file).flattenFrom 0 (totalWeight file) = .error ⟨found.name, found.span⟩ := by
  have hrun := flattenFrom_ofFile_declared file
  rw [hfound, foldlM_reserve_of_taken hfree htaken after] at hrun
  cases hstate : (State.ofFile file).flattenFrom 0 (totalWeight file) with
  | error collision =>
    rw [hstate] at hrun
    exact congrArg Except.error (Except.error.inj hrun)
  | ok state =>
    rw [hstate] at hrun
    cases hrun

end Run

section Sources

variable {source : Text} {file : SourceFile}

/-- A source is flattened as its file is. -/
theorem flatten_eq (hread : SourceFile.read source = some file) :
    flatten source =
      match (State.ofFile file).flattenFrom 0 (totalWeight file) with
      | .ok state => .ok (state.render file.text)
      | .error collision => .error (.collision collision) := by
  simp only [flatten, hread, SourceFile.flatten]
  cases (State.ofFile file).flattenFrom 0 (totalWeight file) <;> rfl

/-- A source is flattened exactly if all names are free. -/
theorem exists_flatten_iff (hread : SourceFile.read source = some file) :
    (∃ text, flatten source = .ok text) ↔ Free file.declaredNames (namesOf (foundIn file)) := by
  rw [flatten_eq hread]
  rcases free_or_taken file.declaredNames (foundIn file) with
    hfree | ⟨before, found, after, hfound, hfree, htaken⟩
  · obtain ⟨state, hrun, -⟩ := flattenFrom_ofFile_of_free hfree
    rw [hrun]
    exact iff_of_true ⟨_, rfl⟩ hfree
  · rw [flattenFrom_ofFile_of_taken hfound hfree htaken, hfound]
    refine iff_of_false ?_ fun hall => hall.not_mem htaken
    rintro ⟨text, h⟩
    cases h

/-- What is reported is the first name that is taken. -/
theorem flatten_collision_iff (hread : SourceFile.read source = some file)
    (collision : NameCollision) :
    flatten source = .error (.collision collision) ↔
      ∃ before found after, foundIn file = before ++ found :: after ∧
        Free file.declaredNames (namesOf before) ∧
        found.name ∈ file.declaredNames ++ namesOf before ∧
        collision = ⟨found.name, found.span⟩ := by
  rw [flatten_eq hread]
  constructor
  · intro h
    rcases free_or_taken file.declaredNames (foundIn file) with
      hfree | ⟨before, found, after, hfound, hfree, htaken⟩
    · obtain ⟨state, hrun, -⟩ := flattenFrom_ofFile_of_free hfree
      rw [hrun] at h
      cases h
    · rw [flattenFrom_ofFile_of_taken hfound hfree htaken] at h
      cases h
      exact ⟨before, found, after, hfound, hfree, htaken, rfl⟩
  · rintro ⟨before, found, after, hfound, hfree, htaken, rfl⟩
    rw [flattenFrom_ofFile_of_taken hfound hfree htaken]

/-- Flattening fails exactly if some object type, found breadth first, would get
a name that is declared or that one found before it gets. It reports the first
such name and the name of its property. If it does not fail, all names made up
are different from each other and from those that are declared. -/
theorem flatten_collides_iff (hread : SourceFile.read source = some file) :
    ((∃ collision, flatten source = .error (.collision collision)) ↔
        ∃ before found after, foundIn file = before ++ found :: after ∧
          found.name ∈ file.declaredNames ++ namesOf before) ∧
      (∀ collision, flatten source = .error (.collision collision) ↔
        ∃ before found after, foundIn file = before ++ found :: after ∧
          Free file.declaredNames (namesOf before) ∧
          found.name ∈ file.declaredNames ++ namesOf before ∧
          collision = ⟨found.name, found.span⟩) ∧
      ((∃ text, flatten source = .ok text) ↔ Free file.declaredNames (namesOf (foundIn file))) ∧
      ∀ text, flatten source = .ok text →
        ∃ state, (State.ofFile file).flattenFrom 0 (totalWeight file) = .ok state ∧
          text = state.render file.text ∧ state.extracted.Nodup ∧
          (∀ name ∈ state.extracted, name ∉ file.declaredNames) ∧
          state.extracted.Perm (namesOf (foundIn file)) := by
  refine ⟨⟨?_, ?_⟩, flatten_collision_iff hread, exists_flatten_iff hread, fun text htext => ?_⟩
  · rintro ⟨collision, h⟩
    obtain ⟨before, found, after, hfound, -, htaken, -⟩ := (flatten_collision_iff hread _).1 h
    exact ⟨before, found, after, hfound, htaken⟩
  · rintro ⟨early, other, late, hother, hclash⟩
    rcases free_or_taken file.declaredNames (foundIn file) with
      hfree | ⟨before, found, after, hfound, hfree, htaken⟩
    · rw [hother] at hfree
      exact absurd hclash hfree.not_mem
    · exact ⟨_, (flatten_collision_iff hread _).2
        ⟨before, found, after, hfound, hfree, htaken, rfl⟩⟩
  · have hfree := (exists_flatten_iff hread).1 ⟨text, htext⟩
    obtain ⟨state, hrun, hperm⟩ := flattenFrom_ofFile_of_free hfree
    have hfresh := fresh_of_flattenFrom hrun
    rw [flatten_eq hread, hrun] at htext
    exact ⟨state, hrun, (Except.ok.inj htext).symm, hfresh.nodup, hfresh.apart, hperm⟩

end Sources

/-- Two object types would get one name. The nested one stands further up, but is
found later, and is reported. -/
theorem flatten_collides_iff_ambiguous :
    let source : Text :=
      "interface A \x7b b: \x7b c: \x7b x: 1 \x7d \x7d; b_properties_c: \x7b y: 2 \x7d \x7d"
    let name : Text := "A_properties_b_properties_c"
    flatten source = .error (.collision ⟨name, ⟨19, 20⟩⟩) ∧
      ∃ file, SourceFile.read source = some file ∧
        ((foundIn file).map fun found => (found.name, found.span)) =
          [("A_properties_b".toList, ⟨14, 15⟩), (name, ⟨34, 48⟩), (name, ⟨19, 20⟩)] := by
  intro source name
  have hmap : (SourceFile.read source).map (fun file =>
      ((foundIn file).map fun found => (found.name, found.span), file.declaredNames)) =
        some ([("A_properties_b".toList, ⟨14, 15⟩), (name, ⟨34, 48⟩), (name, ⟨19, 20⟩)],
          ["A".toList]) := by
    decide +kernel
  obtain ⟨file, hread, hfile⟩ := Option.map_eq_some_iff.1 hmap
  obtain ⟨hfound, hdeclared⟩ := Prod.mk.inj hfile
  refine ⟨?_, file, hread, hfound⟩
  obtain ⟨-, hcollision, -⟩ := flatten_collides_iff hread
  obtain ⟨first, rest, hlist, hfirst, hrest⟩ := List.map_eq_cons_iff.1 hfound
  obtain ⟨second, more, rfl, hsecond, hmore⟩ := List.map_eq_cons_iff.1 hrest
  obtain ⟨third, none, rfl, hthird, -⟩ := List.map_eq_cons_iff.1 hmore
  have hnames : namesOf [first, second] = ["A_properties_b".toList, name] :=
    congrArg₂ (fun first second => [first, second]) (congrArg Prod.fst hfirst)
      (congrArg Prod.fst hsecond)
  have hname : third.name = name := congrArg Prod.fst hthird
  have hspan : third.span = ⟨19, 20⟩ := congrArg Prod.snd hthird
  refine (hcollision _).2 ⟨[first, second], third, none, hlist, ?_, ?_, ?_⟩
  · rw [hnames, hdeclared, Free]
    decide
  · rw [hnames, hdeclared, hname]
    decide
  · rw [hname, hspan]

end InterfaceSchema.Flatten
