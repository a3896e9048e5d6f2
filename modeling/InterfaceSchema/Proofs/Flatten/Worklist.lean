import InterfaceSchema.Proofs.Flatten.Rendering
import InterfaceSchema.Proofs.Syntax.Tiling

/-!
# Working off the queue

The queue is the list of drafts from a number on. What the file will look like
once the queue is empty can be said at every moment: a draft that was worked
off is rendered as it is, and one that was not stands for itself behind all
interfaces that will come out of it. Working off one draft does not change
that text, and it removes exactly one interface from the work that is left.
-/

namespace InterfaceSchema.Flatten

/-- An interface that was just extracted from the interface `parent`. -/
def Draft.fresh (parent : Text) (inline : Inline) : Draft :=
  ⟨Naming.extracted parent inline.head.key, none, propertiesOf inline.members, []⟩

/-- A draft with all its object types out. -/
def Draft.emptied (draft : Draft) : Draft :=
  { draft with renamed := draft.renamed ++ renamings draft.name (inlines draft.properties) }

/-- A draft as it is printed when its object types are out. -/
def Draft.print (source : Text) (draft : Draft) : Text :=
  match draft.origin with
  | some span => retype source draft.name span.start span.stop (inlines draft.properties)
  | none => Hoisted.print source ⟨draft.name, draft.properties⟩

/-- A draft behind all interfaces that will come out of it. -/
def Draft.expand (source : Text) (draft : Draft) : Text :=
  ((inlines draft.properties).flatMap (Inline.hoist draft.name)).flatMap (Hoisted.print source) ++
    draft.print source

/-- The interface that a draft describes. -/
def Draft.hoisted (draft : Draft) : Hoisted := ⟨draft.name, draft.properties⟩

/-- The interfaces that come out of a draft, and the one that it is itself. -/
def Draft.family (draft : Draft) : List Hoisted :=
  (inlines draft.properties).flatMap (Inline.hoist draft.name) ++ [draft.hoisted]

/-- A draft that prints the name of the extracted interface in place of every
object type among its properties. -/
def Draft.Retyped (draft : Draft) : Prop :=
  ∀ property ∈ draft.properties, ∀ type, property.type = some type → type.members?.isSome →
    draft.renamed.lookup type.span = some (Naming.extracted draft.name property.head.key)

/-- The number of the interface in a slot. -/
def Slot.index? : Slot → Option Nat
  | text _ => none
  | interface index => some index

/-- What a slot will be once the drafts in `todo` are worked off, which
follow those in `done`. -/
def slotText (source : Text) (done todo : List Draft) : Slot → Text
  | .text span => span.slice source
  | .interface index =>
    match done[index]? with
    | some draft => renderDraft source draft
    | none => (todo[index - done.length]?.map (Draft.expand source)).getD []

/-- How many interfaces come out of object types, themselves included. -/
def inlinesWeight : List Inline → Nat
  | [] => 0
  | inline :: rest => 1 + membersWeight inline.members + inlinesWeight rest

/-- How many drafts there are to be worked off, now or later. -/
def workload : List Draft → Nat
  | [] => 0
  | draft :: rest => 1 + inlinesWeight (inlines draft.properties) + workload rest

/-- The slots of interfaces with consecutive numbers. -/
def slotsFrom (start count : Nat) : List Slot := (List.range' start count).map .interface

/-- Only a property with an object type makes work. -/
theorem memberWeight_property (property : Property) :
    memberWeight (.property property) =
      ((Inline.ofProperty? property).map fun inline =>
        1 + membersWeight inline.members).getD 0 := by
  obtain ⟨head, type⟩ := property
  cases type with
  | none => simp [memberWeight, Inline.ofProperty?]
  | some type =>
    cases type <;> simp [memberWeight, typeWeight, Inline.ofProperty?, TypeExpr.members?]

/-- The interfaces below a body are those below its object types. -/
theorem membersWeight_eq (members : List Member) :
    membersWeight members = inlinesWeight (inlines (propertiesOf members)) := by
  induction members with
  | nil => simp [membersWeight, inlinesWeight, inlines, propertiesOf]
  | cons member rest ih =>
    rw [membersWeight, ih]
    cases member with
    | property property =>
      have hp : propertiesOf (.property property :: rest) = property :: propertiesOf rest := rfl
      rw [memberWeight_property, hp]
      cases h : Inline.ofProperty? property <;> simp [inlines, h, inlinesWeight]
    | index | mapped | other =>
      rw [memberWeight, Nat.zero_add]
      · rfl
      · intros; simp_all

/-- The work that two lists of drafts make adds up. -/
theorem workload_append (first second : List Draft) :
    workload (first ++ second) = workload first + workload second := by
  induction first with
  | nil => simp [workload]
  | cons draft rest ih => simp [workload, ih, Nat.add_assoc]

/-- Fresh drafts make as much work as there are interfaces in their object
types. -/
theorem workload_fresh (parent : Text) (list : List Inline) :
    workload (list.map (Draft.fresh parent)) = inlinesWeight list := by
  induction list with
  | nil => rfl
  | cons inline rest ih =>
    rw [List.map_cons, workload, ih, inlinesWeight, membersWeight_eq]
    rfl

/-- A fresh draft stands for the interfaces that come out of its object
type. -/
theorem expand_fresh (source parent : Text) (inline : Inline) :
    (Draft.fresh parent inline).expand source =
      (inline.hoist parent).flatMap (Hoisted.print source) := by
  rw [Inline.hoist, hoistMembers_eq, List.flatMap_append, Draft.expand]
  simp [Draft.fresh, Draft.print]

/-- The interfaces that come out of a fresh draft are those of its object
type. -/
theorem family_fresh (parent : Text) (inline : Inline) :
    (Draft.fresh parent inline).family = inline.hoist parent := by
  rw [Inline.hoist, hoistMembers_eq]
  rfl

/-- A declared interface stands for itself and all interfaces that come out
of it. -/
theorem expand_ofDecl (source : Text) (decl : InterfaceDecl) :
    (Draft.ofDecl decl).expand source = printInterface source decl := by
  rw [printInterface, hoistMembers_eq]
  rfl

/-- A draft whose object types are out is rendered as it is printed. -/
theorem renderDraft_emptied (source : Text) {draft : Draft} (hfresh : draft.renamed = [])
    (hseparate : Separate draft.properties) :
    renderDraft source draft.emptied = draft.print source := by
  obtain ⟨name, origin, properties, renamed⟩ := draft
  obtain ⟨hapart, -⟩ := hseparate
  subst hfresh
  cases origin with
  | some span => exact replaceParts_renamings source name span.start span.stop (inlines properties)
  | none => exact renderExtracted_renamings source name hapart

/-- A draft whose object types are out is retyped. -/
theorem retyped_emptied {draft : Draft} (hfresh : draft.renamed = [])
    (hseparate : Separate draft.properties) : draft.emptied.Retyped := by
  obtain ⟨name, origin, properties, renamed⟩ := draft
  obtain ⟨hapart, -⟩ := hseparate
  subst hfresh
  intro property hmem type htype hobject
  obtain ⟨members, hmembers⟩ := Option.isSome_iff_exists.1 hobject
  have hlookup := @lookup_renamings name _ hapart _ hmem _ htype
  rw [hmembers] at hlookup
  exact hlookup

/-- A slot goes right before the first one that is equal to its anchor. -/
theorem insertBefore_append {anchor : Slot} {above : List Slot} (h : anchor ∉ above) (slot : Slot)
    (below : List Slot) :
    insertBefore anchor slot (above ++ anchor :: below) = above ++ slot :: anchor :: below := by
  induction above with
  | nil => simp [insertBefore]
  | cons head rest ih =>
    obtain ⟨hhead, hrest⟩ := not_or.1 (mt List.mem_cons.2 h)
    rw [List.cons_append, insertBefore, if_neg (Ne.symm hhead), ih hrest, List.cons_append]

/-- Changing the element behind a list changes just that element. -/
theorem modify_append_cons {α : Type} (before after : List α) (item : α) (change : α → α) :
    (before ++ item :: after).modify before.length change = before ++ change item :: after := by
  induction before with
  | nil => rfl
  | cons head rest ih => simpa using ih

/-- Moving object types out of a draft adds their names to its table, fresh
drafts to the end of the queue and the new interfaces, in order, right before
the draft. -/
theorem extractAll_eq {name : Text} (list : List Inline) {before after : List Draft} {draft : Draft}
    {above below : List Slot} {declared : List Text} {state : State}
    (habove : Slot.interface before.length ∉ above)
    (h : State.extractAll
      ⟨before ++ draft :: after, above ++ .interface before.length :: below, declared⟩
        before.length name list = .ok state) :
    ∃ names, state =
      ⟨before ++ { draft with renamed := draft.renamed ++ renamings name list } ::
          (after ++ list.map (Draft.fresh name)),
        above ++ (slotsFrom (before.length + 1 + after.length) list.length ++
          .interface before.length :: below), names⟩ := by
  induction list generalizing after draft above declared with
  | nil =>
    cases h
    exact ⟨declared, by simp [renamings, slotsFrom]⟩
  | cons inline rest ih =>
    rw [State.extractAll, State.extract] at h
    dsimp only at h
    split at h
    · cases h
    · simp only [bind, Except.bind] at h
      rw [modify_append_cons, insertBefore_append habove] at h
      have hlength : (before ++ draft :: after).length = before.length + 1 + after.length := by
        simp [Nat.add_assoc, Nat.add_comm 1]
      have hlayout : above ++ .interface (before ++ draft :: after).length ::
          .interface before.length :: below =
          (above ++ [.interface (before.length + 1 + after.length)]) ++
            .interface before.length :: below := by
        simp [hlength]
      have hnew : Slot.interface before.length ∉
          above ++ [.interface (before.length + 1 + after.length)] := by
        simp only [List.mem_append, List.mem_singleton, Slot.interface.injEq, not_or]
        exact ⟨habove, by omega⟩
      rw [hlayout, List.append_assoc, List.cons_append] at h
      obtain ⟨names, hstate⟩ := ih hnew h
      refine ⟨names, ?_⟩
      rw [hstate]
      simp [renamings, slotsFrom, Draft.fresh, List.range'_succ, Nat.add_assoc]

/-- Working off a draft leaves the meaning of every other slot alone. -/
theorem slotText_other (source : Text) {done after extra : List Draft} {draft worked : Draft}
    {index : Nat} (hne : index ≠ done.length) (hlt : index < done.length + 1 + after.length) :
    slotText source (done ++ [worked]) (after ++ extra) (.interface index) =
      slotText source done (draft :: after) (.interface index) := by
  by_cases hdone : index < done.length
  · simp [slotText, List.getElem?_append_left hdone, List.getElem?_eq_getElem hdone]
  · obtain ⟨place, rfl⟩ : ∃ place, index = done.length + 1 + place :=
      ⟨index - (done.length + 1), by omega⟩
    have hplace : place < after.length := by omega
    have hnone : done[done.length + 1 + place]? = none := List.getElem?_eq_none (by omega)
    have hworked : (done ++ [worked])[done.length + 1 + place]? = none :=
      List.getElem?_eq_none (by rw [List.length_append, List.length_singleton]; omega)
    have hleft : done.length + 1 + place - (done ++ [worked]).length = place := by simp
    have hright : done.length + 1 + place - done.length = place + 1 := by omega
    simp only [slotText, hnone, hworked, hleft, hright, List.getElem?_cons_succ,
      List.getElem?_append_left hplace]

/-- The slots of fresh drafts stand for what comes out of their object
types. -/
theorem flatMap_slotsFrom (source parent : Text) (done after : List Draft) (list : List Inline) :
    (slotsFrom (done.length + after.length) list.length).flatMap
        (slotText source done (after ++ list.map (Draft.fresh parent))) =
      (list.flatMap (Inline.hoist parent)).flatMap (Hoisted.print source) := by
  induction list generalizing after with
  | nil => rfl
  | cons inline rest ih =>
    have hrest := ih (after ++ [Draft.fresh parent inline])
    rw [List.length_append, List.length_singleton, ← Nat.add_assoc, List.append_assoc,
      List.singleton_append] at hrest
    have hfirst : slotText source done
        (after ++ Draft.fresh parent inline :: rest.map (Draft.fresh parent))
        (.interface (done.length + after.length)) =
          (inline.hoist parent).flatMap (Hoisted.print source) := by
      simp [slotText, expand_fresh]
    have hslots : slotsFrom (done.length + after.length) (rest.length + 1) =
        .interface (done.length + after.length) ::
          slotsFrom (done.length + after.length + 1) rest.length := by
      rw [slotsFrom, List.range'_succ]
      rfl
    rw [List.length_cons, hslots, List.map_cons, List.flatMap_cons, List.flatMap_cons, hfirst,
      List.flatMap_append, hrest]

/-- The interfaces in a layout, each of which has one slot. -/
def Complete (layout : List Slot) (count : Nat) : Prop :=
  (layout.filterMap Slot.index?).Perm (List.range count)

/-- The slots of fresh drafts complete a layout again. -/
theorem Complete.insert {above below : List Slot} {count : Nat} (anchor : Nat)
    (h : Complete (above ++ .interface anchor :: below) count) (extra : Nat) :
    Complete (above ++ (slotsFrom count extra ++ .interface anchor :: below)) (count + extra) := by
  have hslots : (slotsFrom count extra).filterMap Slot.index? = List.range' count extra := by
    rw [slotsFrom, List.filterMap_map]
    exact List.filterMap_some
  have hswap : (above ++ (slotsFrom count extra ++ .interface anchor :: below)).Perm
      ((above ++ .interface anchor :: below) ++ slotsFrom count extra) := by
    rw [List.append_assoc]
    exact (List.perm_append_left_iff above).2 List.perm_append_comm
  have hrange : List.range (count + extra) = List.range count ++ List.range' count extra := by
    rw [List.range_eq_range', List.range_eq_range', ← List.range'_append_1, Nat.zero_add]
  refine (hswap.filterMap Slot.index?).trans ?_
  rw [List.filterMap_append, hslots, hrange]
  exact (List.perm_append_right_iff _).2 h

/-- In a complete layout, the slot of an interface splits the layout, and the
other slots are those of other interfaces. -/
theorem Complete.split {layout : List Slot} {count index : Nat} (h : Complete layout count)
    (hindex : index < count) :
    ∃ above below, layout = above ++ .interface index :: below ∧
      ∀ slot ∈ above ++ below, ∀ other, slot = .interface other →
        other ≠ index ∧ other < count := by
  have hmem : index ∈ layout.filterMap Slot.index? := h.mem_iff.2 (List.mem_range.2 hindex)
  obtain ⟨slot, hslot, hsome⟩ := List.mem_filterMap.1 hmem
  obtain rfl : slot = .interface index := by
    cases slot with
    | text span => simp [Slot.index?] at hsome
    | interface other => simpa [Slot.index?] using hsome
  obtain ⟨above, below, rfl⟩ := List.append_of_mem hslot
  refine ⟨above, below, rfl, fun slot hin other hother => ?_⟩
  subst hother
  have hnodup : ((above ++ Slot.interface index :: below).filterMap Slot.index?).Nodup :=
    h.nodup_iff.2 List.nodup_range
  have hin' : other ∈ (above ++ below).filterMap Slot.index? :=
    List.mem_filterMap.2 ⟨_, hin, rfl⟩
  constructor
  · rintro rfl
    rw [List.filterMap_append, List.filterMap_cons] at hnodup
    rw [List.filterMap_append] at hin'
    have hfirst := (List.perm_middle.nodup_iff).1 hnodup
    exact (List.nodup_cons.1 hfirst).1 hin'
  · apply List.mem_range.1
    apply h.mem_iff.1
    rw [List.filterMap_append, List.mem_append] at hin'
    rw [List.filterMap_append, List.mem_append, List.filterMap_cons]
    rcases hin' with hin' | hin'
    · exact .inl hin'
    · exact .inr (List.mem_cons_of_mem _ hin')

/-- One draft worked off: the text that the file will have stays the same. -/
theorem flatMap_slotText_step (source : Text) {done after : List Draft} {draft : Draft}
    {above below : List Slot} (hfresh : draft.renamed = []) (hseparate : Separate draft.properties)
    (hothers : ∀ slot ∈ above ++ below, ∀ other, slot = .interface other →
      other ≠ done.length ∧ other < done.length + 1 + after.length) :
    (above ++ (slotsFrom (done.length + 1 + after.length) (inlines draft.properties).length ++
          .interface done.length :: below)).flatMap
        (slotText source (done ++ [draft.emptied])
          (after ++ (inlines draft.properties).map (Draft.fresh draft.name))) =
      (above ++ .interface done.length :: below).flatMap
        (slotText source done (draft :: after)) := by
  generalize hlist : inlines draft.properties = list
  have hother : ∀ slot ∈ above ++ below,
      slotText source (done ++ [draft.emptied]) (after ++ list.map (Draft.fresh draft.name)) slot =
        slotText source done (draft :: after) slot := by
    intro slot hin
    cases slot with
    | text span => rfl
    | interface other =>
      obtain ⟨hne, hlt⟩ := hothers _ hin other rfl
      exact slotText_other source hne hlt
  have hflat : ∀ slots : List Slot, (∀ slot ∈ slots, slot ∈ above ++ below) →
      slots.flatMap (slotText source (done ++ [draft.emptied])
        (after ++ list.map (Draft.fresh draft.name))) =
        slots.flatMap (slotText source done (draft :: after)) := by
    intro slots hslots
    rw [List.flatMap_def, List.flatMap_def]
    exact congrArg List.flatten (List.map_congr_left fun slot hin => hother slot (hslots slot hin))
  have hworked : slotText source (done ++ [draft.emptied])
      (after ++ list.map (Draft.fresh draft.name)) (.interface done.length) =
        draft.print source := by
    rw [← renderDraft_emptied source hfresh hseparate]
    simp [slotText]
  have hdraft : slotText source done (draft :: after) (.interface done.length) =
      draft.expand source := by
    simp [slotText]
  have hnew := flatMap_slotsFrom source draft.name (done ++ [draft.emptied]) after list
  rw [List.length_append, List.length_singleton] at hnew
  rw [List.flatMap_append, List.flatMap_append, List.flatMap_cons, List.flatMap_append,
    List.flatMap_cons, hflat above fun slot hin => List.mem_append_left _ hin,
    hflat below fun slot hin => List.mem_append_right _ hin, hnew, hworked, hdraft, Draft.expand,
    hlist]
  simp

/-- What is left of the queue when a draft is worked off. -/
def Draft.leave (after : List Draft) (draft : Draft) : List Draft :=
  after ++ (inlines draft.properties).map (Draft.fresh draft.name)

/-- One round of the queue: the layout stays complete, one interface less is
to be worked off, and the text that the file will have stays the same. -/
theorem extractAll_round {done after : List Draft} {draft : Draft} {layout : List Slot}
    {declared : List Text} {worked : State}
    (hcomplete : Complete layout (done.length + (draft :: after).length))
    (h : State.extractAll ⟨done ++ draft :: after, layout, declared⟩ done.length draft.name
      (inlines draft.properties) = .ok worked) :
    ∃ slots names,
      worked = ⟨(done ++ [draft.emptied]) ++ draft.leave after, slots, names⟩ ∧
      Complete slots ((done ++ [draft.emptied]).length + (draft.leave after).length) ∧
      workload (draft :: after) = workload (draft.leave after) + 1 ∧
      ∀ source, draft.renamed = [] → Separate draft.properties →
        slots.flatMap (slotText source (done ++ [draft.emptied]) (draft.leave after)) =
          layout.flatMap (slotText source done (draft :: after)) := by
  have hnumber : done.length < done.length + (draft :: after).length := by simp
  obtain ⟨above, below, rfl, hothers⟩ := hcomplete.split hnumber
  have hlength : done.length + (draft :: after).length = done.length + 1 + after.length := by
    simp [Nat.add_assoc, Nat.add_comm 1]
  rw [hlength] at hcomplete hothers
  have hanchor : Slot.interface done.length ∉ above := fun hin =>
    (hothers _ (List.mem_append_left _ hin) _ rfl).1 rfl
  obtain ⟨names, rfl⟩ := extractAll_eq (inlines draft.properties) hanchor h
  refine ⟨_, names, by simp [Draft.emptied, Draft.leave], ?_, ?_, fun source hfresh hseparate =>
    flatMap_slotText_step source hfresh hseparate hothers⟩
  · have hsize : (done ++ [draft.emptied]).length + (draft.leave after).length =
        done.length + 1 + after.length + (inlines draft.properties).length := by
      simp [Draft.leave, Nat.add_assoc]
    rw [hsize]
    exact hcomplete.insert done.length _
  · rw [workload, Draft.leave, workload_append, workload_fresh]
    omega

/-- Every draft left in the queue is one that stood there before, or fresh
and as separate as the object type it came from. -/
theorem leave_separate {after : List Draft} {draft : Draft}
    (h : ∀ next ∈ draft :: after, next.renamed = [] ∧ Separate next.properties) :
    ∀ next ∈ draft.leave after, next.renamed = [] ∧ Separate next.properties := by
  intro next hnext
  rcases List.mem_append.1 hnext with hnext | hnext
  · exact h next (List.mem_cons_of_mem _ hnext)
  · obtain ⟨inline, hinline, rfl⟩ := List.mem_map.1 hnext
    obtain ⟨-, hbelow⟩ := (h draft List.mem_cons_self).2
    exact ⟨rfl, hbelow inline hinline⟩

/-- Once the queue is empty, the file is what it was going to be all along. -/
theorem flattenFrom_render (source : Text) (count : Nat) {done todo : List Draft}
    {layout : List Slot} {declared : List Text} {state : State} (hcount : workload todo = count)
    (hcomplete : Complete layout (done.length + todo.length))
    (htodo : ∀ draft ∈ todo, draft.renamed = [] ∧ Separate draft.properties)
    (h : State.flattenFrom ⟨done ++ todo, layout, declared⟩ done.length count = .ok state) :
    state.render source = layout.flatMap (slotText source done todo) := by
  induction count generalizing done todo layout declared with
  | zero =>
    cases todo with
    | cons draft rest => rw [workload] at hcount; omega
    | nil =>
      cases h
      have hslot : renderSlot source done = slotText source done [] := by
        funext slot
        cases slot with
        | text span => rfl
        | interface index => cases hdraft : done[index]? <;> simp [renderSlot, slotText, hdraft]
      simp [State.render, hslot]
  | succ count ih =>
    cases todo with
    | nil => simp [workload] at hcount
    | cons draft after =>
      have hdraft : (done ++ draft :: after)[done.length]? = some draft := by simp
      rw [State.flattenFrom] at h
      simp only [hdraft, bind, Except.bind] at h
      split at h
      · cases h
      next worked hworked =>
      obtain ⟨slots, names, rfl, hslots, hwork, htext⟩ := extractAll_round hcomplete hworked
      obtain ⟨hfresh, hseparate⟩ := htodo draft List.mem_cons_self
      have hindex : done.length + 1 = (done ++ [draft.emptied]).length := by simp
      rw [hindex] at h
      have hrender := ih (by omega) hslots (leave_separate htodo) h
      exact hrender.trans (htext source hfresh hseparate)

/-- One draft worked off: the interfaces that come out of it are those that
come out of the fresh drafts, and itself. -/
theorem flatMap_family_leave (done after : List Draft) (draft : Draft) :
    ((done ++ [draft.emptied]).map Draft.hoisted ++ (draft.leave after).flatMap Draft.family).Perm
      (done.map Draft.hoisted ++ (draft :: after).flatMap Draft.family) := by
  have hfresh : ((inlines draft.properties).map (Draft.fresh draft.name)).flatMap Draft.family =
      (inlines draft.properties).flatMap (Inline.hoist draft.name) := by
    rw [List.flatMap_map]
    exact congrArg (fun hoist => List.flatMap hoist (inlines draft.properties))
      (funext fun inline => family_fresh draft.name inline)
  rw [List.map_append, List.append_assoc, Draft.leave, List.flatMap_append, hfresh,
    List.flatMap_cons, Draft.family]
  refine (List.perm_append_left_iff _).2 ?_
  rw [List.append_assoc, ← List.append_assoc]
  exact List.perm_append_comm

/-- Once the queue is empty, the drafts are the interfaces that come out of
those that stood in it, each once, and none of them is printed with an object
type. -/
theorem flattenFrom_drafts (count : Nat) {done todo : List Draft} {layout : List Slot}
    {declared : List Text} {state : State} (hcount : workload todo = count)
    (hcomplete : Complete layout (done.length + todo.length))
    (htodo : ∀ draft ∈ todo, draft.renamed = [] ∧ Separate draft.properties)
    (hdone : ∀ draft ∈ done, draft.Retyped)
    (h : State.flattenFrom ⟨done ++ todo, layout, declared⟩ done.length count = .ok state) :
    (state.drafts.map Draft.hoisted).Perm
        (done.map Draft.hoisted ++ todo.flatMap Draft.family) ∧
      ∀ draft ∈ state.drafts, draft.Retyped := by
  induction count generalizing done todo layout declared with
  | zero =>
    cases todo with
    | cons draft rest => rw [workload] at hcount; omega
    | nil =>
      cases h
      simpa using hdone
  | succ count ih =>
    cases todo with
    | nil => simp [workload] at hcount
    | cons draft after =>
      have hdraft : (done ++ draft :: after)[done.length]? = some draft := by simp
      rw [State.flattenFrom] at h
      simp only [hdraft, bind, Except.bind] at h
      split at h
      · cases h
      next worked hworked =>
      obtain ⟨slots, names, rfl, hslots, hwork, -⟩ := extractAll_round hcomplete hworked
      obtain ⟨hfresh, hseparate⟩ := htodo draft List.mem_cons_self
      have hindex : done.length + 1 = (done ++ [draft.emptied]).length := by simp
      have hdone' : ∀ next ∈ done ++ [draft.emptied], next.Retyped := by
        intro next hnext
        rcases List.mem_append.1 hnext with hnext | hnext
        · exact hdone next hnext
        · obtain rfl := List.mem_singleton.1 hnext
          exact retyped_emptied hfresh hseparate
      rw [hindex] at h
      obtain ⟨hperm, hretyped⟩ := ih (by omega) hslots (leave_separate htodo) hdone' h
      exact ⟨hperm.trans (flatMap_family_leave done after draft), hretyped⟩

/-- More rounds than there are drafts to be worked off change nothing: the
queue is empty before they start. -/
theorem flattenFrom_stable (count extra : Nat) {done todo : List Draft} {layout : List Slot}
    {declared : List Text} (hcount : workload todo = count)
    (hcomplete : Complete layout (done.length + todo.length)) :
    State.flattenFrom ⟨done ++ todo, layout, declared⟩ done.length (count + extra) =
      State.flattenFrom ⟨done ++ todo, layout, declared⟩ done.length count := by
  induction count generalizing done todo layout declared with
  | zero =>
    cases todo with
    | cons draft rest => rw [workload] at hcount; omega
    | nil => cases extra <;> simp [State.flattenFrom]
  | succ count ih =>
    cases todo with
    | nil => simp [workload] at hcount
    | cons draft after =>
      have hdraft : (done ++ draft :: after)[done.length]? = some draft := by simp
      rw [Nat.add_right_comm, State.flattenFrom, State.flattenFrom]
      simp only [hdraft, bind, Except.bind]
      split
      · rfl
      next worked hworked =>
      obtain ⟨slots, names, rfl, hslots, hwork, -⟩ := extractAll_round hcomplete hworked
      have hindex : done.length + 1 = (done ++ [draft.emptied]).length := by simp
      rw [hindex]
      exact ih (by omega) hslots

/-- The slots of the interfaces of a file, numbered in source order. -/
theorem filterMap_layoutFrom (stop cursor index : Nat) (decls : List InterfaceDecl) :
    (layoutFrom stop cursor index decls).filterMap Slot.index? =
      List.range' index decls.length := by
  induction decls generalizing cursor index with
  | nil =>
    rw [layoutFrom]
    split <;> rfl
  | cons decl rest ih =>
    have hrest := ih decl.span.stop (index + 1)
    rw [layoutFrom]
    rw [List.length_cons, List.range'_succ, ← hrest]
    split <;> rfl

/-- Before anything is worked off, a file is going to be the text between its
interfaces and every interface with what comes out of it. -/
theorem flatMap_layoutFrom (source : Text) (cursor : Nat) (before : List Draft)
    (decls : List InterfaceDecl) :
    (layoutFrom (Text.byteLength source) cursor before.length decls).flatMap
        (slotText source [] (before ++ decls.map Draft.ofDecl)) =
      printFrom source cursor decls := by
  induction decls generalizing cursor before with
  | nil =>
    rw [layoutFrom, printFrom]
    split
    · simp [slotText]
    · next h => rw [Span.slice_eq_nil (by simp; omega)]; rfl
  | cons decl rest ih =>
    have hrest := ih decl.span.stop (before ++ [Draft.ofDecl decl])
    rw [List.length_append, List.length_singleton, List.append_assoc, List.singleton_append]
      at hrest
    have hdecl : slotText source [] (before ++ Draft.ofDecl decl :: rest.map Draft.ofDecl)
        (.interface before.length) = printInterface source decl := by
      simp [slotText, expand_ofDecl]
    rw [layoutFrom, printFrom, List.map_cons]
    split
    · rw [List.flatMap_cons, List.flatMap_cons, hdecl, hrest]
      rfl
    · next h =>
      rw [List.flatMap_cons, hdecl, hrest, Span.slice_eq_nil (by simp; omega)]
      rfl

end InterfaceSchema.Flatten
