import InterfaceSchema.Proofs.Flatten.Refinement

/-!
# What flattening keeps

A flattened file is cut into pieces: text taken over from the source, names
that stand in place of object types, and extracted interfaces. Each piece knows
what stood for it in the source. With the extracted interfaces deleted and the
object types put back, the pieces are the source again, because their spans
cover it from its start to its end, each one starting where the one before it
ends.
-/

namespace InterfaceSchema.Flatten

/-- A piece of a flattened file. -/
inductive Piece where
  /-- Text taken over from the source. -/
  | kept (span : Span)
  /-- An extracted interface. -/
  | block (hoisted : Hoisted)
  /-- A name in place of the object type at `span`. -/
  | retyped (span : Span) (name : Text)

namespace Piece

/-- The piece in the flattened file. -/
def written (source : Text) : Piece → Text
  | kept span => span.slice source
  | block hoisted => hoisted.print source
  | retyped _ name => name

/-- What stood for the piece in the source: nothing for an extracted
interface, and for a name the object type that it replaces. -/
def original (source : Text) : Piece → Text
  | kept span | retyped span _ => span.slice source
  | block _ => []

/-- Where that stood. -/
def span? : Piece → Option Span
  | kept span | retyped span _ => some span
  | block _ => none

end Piece

/-- An interface from `cursor` to `stop`, the object types in it replaced. -/
def retypedPieces (parent : Text) (cursor stop : Nat) : List Inline → List Piece
  | [] => [.kept ⟨cursor, stop⟩]
  | inline :: rest =>
    .kept ⟨cursor, inline.type.span.start⟩ ::
      .retyped inline.type.span (Naming.extracted parent inline.head.key) ::
        retypedPieces parent inline.type.span.stop stop rest

/-- An interface of the source behind the interfaces that come out of it. -/
def interfacePieces (decl : InterfaceDecl) : List Piece :=
  (hoistMembers decl.name decl.members).map .block ++
    retypedPieces decl.name decl.span.start decl.span.stop (inlines (propertiesOf decl.members))

/-- The interfaces in source order, with the text from `cursor` to `stop`
between them. -/
def piecesFrom (stop cursor : Nat) : List InterfaceDecl → List Piece
  | [] => [.kept ⟨cursor, stop⟩]
  | decl :: rest =>
    .kept ⟨cursor, decl.span.start⟩ ::
      (interfacePieces decl ++ piecesFrom stop decl.span.stop rest)

/-- The pieces that a flattened file is made of. -/
def pieces (file : SourceFile) : List Piece :=
  piecesFrom (Text.byteLength file.text) 0 file.interfaces

/-- The part of the source that a slot of the layout stands for. -/
def Slot.span? (drafts : List Draft) : Slot → Option Span
  | text span => some span
  | interface index => drafts[index]?.bind Draft.origin

section Written

variable (source : Text)

/-- The pieces of an interface are written as the interface is retyped. -/
theorem flatMap_written_retyped (parent : Text) (cursor stop : Nat) (list : List Inline) :
    (retypedPieces parent cursor stop list).flatMap (Piece.written source) =
      retype source parent cursor stop list := by
  induction list generalizing cursor with
  | nil => simp [retypedPieces, retype, Piece.written]
  | cons inline rest ih => simp [retypedPieces, retype, Piece.written, ih]

/-- The pieces of a file are written as the file is printed. -/
theorem flatMap_written (cursor : Nat) (decls : List InterfaceDecl) :
    (piecesFrom (Text.byteLength source) cursor decls).flatMap (Piece.written source) =
      printFrom source cursor decls := by
  induction decls generalizing cursor with
  | nil => simp [piecesFrom, printFrom, Piece.written]
  | cons decl rest ih =>
    have hblocks : ((hoistMembers decl.name decl.members).map Piece.block).flatMap
        (Piece.written source) =
          (hoistMembers decl.name decl.members).flatMap (Hoisted.print source) := by
      rw [List.flatMap_map]
      rfl
    rw [piecesFrom, printFrom, interfacePieces, List.flatMap_cons, List.flatMap_append,
      List.flatMap_append, hblocks, flatMap_written_retyped, ih, printInterface]
    rfl

/-- The originals of pieces are the parts of the source where they stood. -/
theorem flatMap_original (pieces : List Piece) :
    pieces.flatMap (Piece.original source) =
      (pieces.filterMap Piece.span?).flatMap fun span => span.slice source := by
  induction pieces with
  | nil => rfl
  | cons piece rest ih =>
    rw [List.flatMap_cons, ih]
    cases piece <;> rfl

end Written

section Tiling

/-- The pieces of an interface whose object types stand in order cover it. -/
theorem tiles_retypedPieces (parent : Text) {cursor stop : Nat} {list : List Inline}
    (h : InOrder cursor stop (list.map fun inline => inline.type.span)) :
    Tiles cursor stop ((retypedPieces parent cursor stop list).filterMap Piece.span?) := by
  induction list generalizing cursor with
  | nil => exact ⟨rfl, h, rfl⟩
  | cons inline rest ih =>
    obtain ⟨hstart, hspan, hrest⟩ := h
    exact ⟨rfl, hstart, rfl, hspan, ih hrest⟩

/-- Interfaces in order, the object types inside each of them in order as
well. -/
def DeclsInOrder (start stop : Nat) (decls : List InterfaceDecl) : Prop :=
  InOrder start stop (decls.map InterfaceDecl.span) ∧
    ∀ decl ∈ decls, InOrder decl.span.start decl.span.stop
      ((inlines (propertiesOf decl.members)).map fun inline => inline.type.span)

/-- The pieces of interfaces in order cover the source. -/
theorem tiles_piecesFrom {cursor stop : Nat} {decls : List InterfaceDecl}
    (h : DeclsInOrder cursor stop decls) :
    Tiles cursor stop ((piecesFrom stop cursor decls).filterMap Piece.span?) := by
  induction decls generalizing cursor with
  | nil => exact ⟨rfl, h.1, rfl⟩
  | cons decl rest ih =>
    obtain ⟨⟨hstart, hspan, hrest⟩, hinside⟩ := h
    have hblocks : ((hoistMembers decl.name decl.members).map Piece.block).filterMap
        Piece.span? = [] := by simp [Piece.span?]
    have hdecl := tiles_retypedPieces decl.name (hinside decl List.mem_cons_self)
    have hbehind := ih ⟨hrest, fun other hother => hinside other (List.mem_cons_of_mem _ hother)⟩
    rw [piecesFrom, interfacePieces, List.filterMap_cons, List.filterMap_append,
      List.filterMap_append, hblocks, List.nil_append]
    exact ⟨rfl, hstart, hdecl.append hbehind⟩

/-- The slots of interfaces in order, and of the text between them, cover the
source. -/
theorem tiles_layoutFrom {cursor stop : Nat} {before : List Draft} {decls : List InterfaceDecl}
    (h : InOrder cursor stop (decls.map InterfaceDecl.span)) :
    Tiles cursor stop ((layoutFrom stop cursor before.length decls).filterMap
      (Slot.span? (before ++ decls.map Draft.ofDecl))) := by
  induction decls generalizing cursor before with
  | nil =>
    rw [layoutFrom]
    split
    · exact ⟨rfl, h, rfl⟩
    · next hnot =>
      have hle : cursor ≤ stop := h
      have heq : cursor = stop := by omega
      exact heq
  | cons decl rest ih =>
    obtain ⟨hstart, hspan, hrest⟩ := h
    have hbehind := @ih decl.span.stop (before ++ [Draft.ofDecl decl]) hrest
    rw [List.length_append, List.length_singleton, List.append_assoc, List.singleton_append]
      at hbehind
    have hdecl : Slot.span? (before ++ Draft.ofDecl decl :: rest.map Draft.ofDecl)
        (.interface before.length) = some decl.span := by
      simp [Slot.span?, Draft.ofDecl]
    have hslots : Tiles decl.span.start stop
        ((Slot.interface before.length ::
          layoutFrom stop decl.span.stop (before.length + 1) rest).filterMap
            (Slot.span? (before ++ (decl :: rest).map Draft.ofDecl))) := by
      rw [List.map_cons, List.filterMap_cons, hdecl]
      exact ⟨rfl, hspan, hbehind⟩
    rw [layoutFrom]
    split
    · exact ⟨rfl, hstart, hslots⟩
    · next hnot =>
      have heq : cursor = decl.span.start := by omega
      rw [heq]
      exact hslots

end Tiling

section Soundness

variable {source : Text} {start stop : Nat}

/-- The object types of sound members stand in order. -/
theorem inOrder_of_membersSound {members : List Member}
    (h : MembersSound source start stop members) :
    InOrder start stop ((inlines (propertiesOf members)).map fun inline => inline.type.span) := by
  induction members generalizing start with
  | nil => exact h
  | cons member rest ih =>
    obtain ⟨hmember, hrest⟩ := h
    obtain ⟨hspan, hstart⟩ := hmember.span
    have hbehind := (ih hrest).mono_start (Nat.le_trans hstart hspan.le)
    cases member with
    | property property =>
      have hproperties :
          propertiesOf (.property property :: rest) = property :: propertiesOf rest := rfl
      rw [hproperties, inlines, List.filterMap_cons]
      cases hinline : Inline.ofProperty? property with
      | none => exact hbehind
      | some inline =>
        obtain ⟨span, -, rfl⟩ := Inline.eq_of_ofProperty? hinline
        obtain ⟨hhead, hname, htype, hstop⟩ := hmember
        have hname_le := hhead.name.le
        have hname_start := hhead.start_le
        have hbefore : start ≤ inline.head.span.start := hstart
        have hinline : start ≤ inline.type.span.start := by omega
        exact ⟨hinline, htype.span.le, (ih hrest).mono_start hstop⟩
    | index | mapped | other => exact hbehind

/-- The object types of a sound interface stand inside it in order. -/
theorem inOrder_of_sound {decl : InterfaceDecl} (h : decl.Sound source start) :
    InOrder decl.span.start decl.span.stop
      ((inlines (propertiesOf decl.members)).map fun inline => inline.type.span) := by
  obtain ⟨first, second, hparameters, hbases, hmembers⟩ := h.parts
  have hname := h.name.le
  have hstart := h.name_start
  have hfirst := hparameters.le
  have hsecond := hbases.le
  exact (inOrder_of_membersSound hmembers).mono_start (by omega)

/-- Interfaces among sound statements stand in order. -/
theorem declsInOrder_of_itemsSound {items : List Item} (h : ItemsSound source start items)
    (hstart : start ≤ Text.byteLength source) :
    DeclsInOrder start (Text.byteLength source) (items.filterMap Item.interface?) := by
  induction items generalizing start with
  | nil => exact ⟨hstart, by simp⟩
  | cons item rest ih =>
    obtain ⟨hitem, hrest⟩ := h
    obtain ⟨hsound, hbefore⟩ := hitem.whole
    have hbehind := ih hrest hsound.stop_cut.le
    have hskip : DeclsInOrder start (Text.byteLength source) (rest.filterMap Item.interface?) :=
      ⟨hbehind.1.mono_start (Nat.le_trans hbefore hsound.le), hbehind.2⟩
    cases item with
    | interfaceItem decl =>
      have hdecl : InterfaceDecl.Sound source start decl := hitem
      refine ⟨⟨hbefore, hsound.le, hbehind.1⟩, fun other hother => ?_⟩
      rcases List.mem_cons.1 hother with rfl | hother
      · exact inOrder_of_sound hdecl
      · exact hbehind.2 other hother
    | aliasItem decl => exact hskip
    | importItem span => exact hskip
    | otherItem span => exact hskip

/-- The object types of a sound interface have sound spans. -/
theorem sound_inline {decl : InterfaceDecl} (h : decl.Sound source start)
    {inline : Inline} (hmem : inline ∈ inlines (propertiesOf decl.members)) :
    inline.type.span.Sound source := by
  obtain ⟨first, second, -, -, hmembers⟩ := h.parts
  obtain ⟨property, hproperty, htype, -⟩ := mem_inlines hmem
  exact (type_of_membersSound hmembers hproperty htype).2.span

/-- The pieces of an interface end at cuts. -/
theorem cut_of_retypedPieces (parent : Text) {cursor : Nat} {list : List Inline}
    (hstop : Cut source stop) (hlist : ∀ inline ∈ list, inline.type.span.Sound source) :
    ∀ span ∈ (retypedPieces parent cursor stop list).filterMap Piece.span?,
      Cut source span.stop := by
  induction list generalizing cursor with
  | nil => simpa [retypedPieces, Piece.span?] using hstop
  | cons inline rest ih =>
    have hinline := hlist inline List.mem_cons_self
    have hrest := @ih inline.type.span.stop fun other hother =>
      hlist other (List.mem_cons_of_mem _ hother)
    intro span hspan
    simp only [retypedPieces, Piece.span?, List.filterMap_cons, List.mem_cons] at hspan
    rcases hspan with rfl | rfl | hspan
    · exact hinline.start_cut
    · exact hinline.stop_cut
    · exact hrest span hspan

/-- The pieces of a file end at cuts. -/
theorem cut_of_piecesFrom {cursor : Nat} {decls : List InterfaceDecl} (hstop : Cut source stop)
    (hdecls : ∀ decl ∈ decls, ∃ behind, InterfaceDecl.Sound source behind decl) :
    ∀ span ∈ (piecesFrom stop cursor decls).filterMap Piece.span?, Cut source span.stop := by
  induction decls generalizing cursor with
  | nil => simpa [piecesFrom, Piece.span?] using hstop
  | cons decl rest ih =>
    obtain ⟨behind, hdecl⟩ := hdecls decl List.mem_cons_self
    have hrest := @ih decl.span.stop fun other hother =>
      hdecls other (List.mem_cons_of_mem _ hother)
    have hinside := @cut_of_retypedPieces source decl.span.stop decl.name decl.span.start
      (inlines (propertiesOf decl.members)) hdecl.span.stop_cut fun inline => sound_inline hdecl
    intro span hspan
    simp only [piecesFrom, interfacePieces, Piece.span?, List.filterMap_cons,
      List.filterMap_append, List.filterMap_map, List.mem_cons, List.mem_append] at hspan
    rcases hspan with rfl | (hspan | hspan) | hspan
    · exact hdecl.span.start_cut
    · simp [Piece.span?] at hspan
    · exact hinside span hspan
    · exact hrest span hspan

end Soundness

section Run

/-- What working off makes of every draft holds of all drafts once the queue
is empty: `Q` is what is known of the drafts in the queue, `P` of those that
were worked off. -/
theorem flattenFrom_forall {P Q : Draft → Prop}
    (hwork : ∀ draft, Q draft →
      P draft.emptied ∧ ∀ inline ∈ inlines draft.properties, Q (Draft.fresh draft.name inline))
    (count : Nat) {done todo : List Draft} {layout : List Slot} {declared : List Text}
    {state : State} (hcount : workload todo = count)
    (hcomplete : Complete layout (done.length + todo.length))
    (htodo : ∀ draft ∈ todo, Q draft) (hdone : ∀ draft ∈ done, P draft)
    (h : State.flattenFrom ⟨done ++ todo, layout, declared⟩ done.length count = .ok state) :
    ∀ draft ∈ state.drafts, P draft := by
  induction count generalizing done todo layout declared with
  | zero =>
    cases todo with
    | cons draft rest => rw [workload] at hcount; omega
    | nil =>
      cases h
      simpa using hdone
  | succ count ih =>
    cases todo with
    | nil => simp [workload] at hcount
    | cons draft after =>
      have hdraft : (done ++ draft :: after)[done.length]? = some draft := by simp
      rw [State.flattenFrom] at h
      simp only [hdraft, bind, Except.bind] at h
      split at h
      · cases h
      next worked hworked =>
      obtain ⟨slots, names, rfl, hslots, hload, -⟩ := extractAll_round hcomplete hworked
      obtain ⟨hemptied, hfresh⟩ := hwork draft (htodo draft List.mem_cons_self)
      have hindex : done.length + 1 = (done ++ [draft.emptied]).length := by simp
      rw [hindex] at h
      refine ih (by omega) hslots (fun next hnext => ?_) (fun next hnext => ?_) h
      · rcases List.mem_append.1 hnext with hnext | hnext
        · exact htodo next (List.mem_cons_of_mem _ hnext)
        · obtain ⟨inline, hinline, rfl⟩ := List.mem_map.1 hnext
          exact hfresh inline hinline
      · rcases List.mem_append.1 hnext with hnext | hnext
        · exact hdone next hnext
        · obtain rfl := List.mem_singleton.1 hnext
          exact hemptied

/-- A draft of an interface in the source whose object types stand in it in
order. -/
def Draft.InOrder (draft : Draft) (spans : List Span) : Prop :=
  ∀ span, draft.origin = some span → InterfaceSchema.InOrder span.start span.stop spans

/-- What flattening does to a file that was read: how its state begins, what
it prints, and where the replaced types stand. -/
theorem flattenFrom_ofFile {file : SourceFile} {state : State}
    (hitems : ItemsSound file.text 0 file.items)
    (h : (State.ofFile file).flattenFrom 0 (totalWeight file) = .ok state) :
    state.render file.text = printFrom file.text 0 file.interfaces ∧
      ∀ draft ∈ state.drafts, draft.InOrder (draft.renamed.map Prod.fst) := by
  have hcount := workload_ofDecl file
  have hcomplete := complete_ofFile file
  have hdecls := declsInOrder_of_itemsSound hitems (Nat.zero_le _)
  constructor
  · have htodo : ∀ draft ∈ file.interfaces.map Draft.ofDecl,
        draft.renamed = [] ∧ Separate draft.properties := by
      intro draft hdraft
      obtain ⟨decl, hdecl, rfl⟩ := List.mem_map.1 hdraft
      exact ⟨rfl, separate_of_itemsSound hitems hdecl⟩
    rw [flattenFrom_render file.text _ hcount hcomplete htodo h]
    exact flatMap_layoutFrom file.text 0 [] file.interfaces
  · refine flattenFrom_forall (P := fun draft => draft.InOrder (draft.renamed.map Prod.fst))
      (Q := fun draft => draft.renamed = [] ∧
        draft.InOrder ((inlines draft.properties).map fun inline => inline.type.span))
      (fun draft hdraft => ⟨?_, fun inline hinline => ?_⟩) _ hcount hcomplete ?_ (by simp) h
    · obtain ⟨hfresh, horder⟩ := hdraft
      have hrenamed : draft.emptied.renamed.map Prod.fst =
          (inlines draft.properties).map fun inline => inline.type.span := by
        simp [Draft.emptied, hfresh, renamings]
      rw [hrenamed]
      exact horder
    · refine ⟨rfl, fun span hspan => ?_⟩
      cases hspan
    · intro draft hdraft
      obtain ⟨decl, hdecl, rfl⟩ := List.mem_map.1 hdraft
      refine ⟨rfl, fun span hspan => ?_⟩
      cases hspan
      exact hdecls.2 decl hdecl

/-- The flattened source is the file as it is printed. -/
theorem eq_printFrom_of_flatten {source text : Text} {file : SourceFile}
    (hread : SourceFile.read source = some file) (h : flatten source = .ok text) :
    text = printFrom source 0 file.interfaces := by
  obtain ⟨rfl, hitems⟩ := SourceFile.read_sound hread
  simp only [flatten, hread, SourceFile.flatten, bind, Except.bind] at h
  cases hrun : (State.ofFile file).flattenFrom 0 (totalWeight file) with
  | error collision =>
    rw [hrun] at h
    cases h
  | ok state =>
    rw [hrun] at h
    obtain rfl : state.render file.text = text := Except.ok.inj h
    exact (flattenFrom_ofFile hitems hrun).1

/-- Interfaces without object types cost no work besides their own. -/
theorem flattenFrom_plain (count : Nat) {drafts : List Draft} {layout : List Slot}
    {declared : List Text} (hplain : ∀ draft ∈ drafts, inlines draft.properties = [])
    (index : Nat) :
    State.flattenFrom ⟨drafts, layout, declared⟩ index count = .ok ⟨drafts, layout, declared⟩ := by
  induction count generalizing index with
  | zero => rfl
  | succ count ih =>
    rw [State.flattenFrom]
    cases hdraft : drafts[index]? with
    | none => rfl
    | some draft =>
      have hnone := hplain draft (List.mem_of_getElem? hdraft)
      simp only [hnone, State.extractAll, bind, Except.bind]
      exact ih (index + 1)

/-- Interfaces without object types are written as they stood. -/
theorem written_eq_original (source : Text) {stop cursor : Nat} {decls : List InterfaceDecl}
    (hplain : ∀ decl ∈ decls, inlines (propertiesOf decl.members) = []) :
    (piecesFrom stop cursor decls).flatMap (Piece.written source) =
      (piecesFrom stop cursor decls).flatMap (Piece.original source) := by
  induction decls generalizing cursor with
  | nil => rfl
  | cons decl rest ih =>
    have hnone := hplain decl List.mem_cons_self
    have hpieces : interfacePieces decl = [.kept decl.span] := by
      rw [interfacePieces, hoistMembers_eq, hnone]
      rfl
    have hrest := @ih decl.span.stop fun other hother =>
      hplain other (List.mem_cons_of_mem _ hother)
    rw [piecesFrom, hpieces, List.flatMap_cons, List.flatMap_cons, List.flatMap_append,
      List.flatMap_append, hrest]
    rfl

/-- The pieces of a file that was read stand in the source and cover it. -/
theorem original_pieces {file : SourceFile} (hitems : ItemsSound file.text 0 file.items) :
    Tiles 0 (Text.byteLength file.text) ((pieces file).filterMap Piece.span?) ∧
      (pieces file).flatMap (Piece.original file.text) = file.text := by
  have htiles : Tiles 0 (Text.byteLength file.text) ((pieces file).filterMap Piece.span?) :=
    tiles_piecesFrom (declsInOrder_of_itemsSound hitems (Nat.zero_le _))
  refine ⟨htiles, ?_⟩
  rw [flatMap_original, htiles.flatMap_slice (Cut.zero file.text)
    (cut_of_piecesFrom (Cut.whole _) fun decl hdecl => sound_of_itemsSound hitems hdecl)]
  exact Span.slice_whole file.text

end Run

/-- Flattening keeps every byte of the source. The slots of its layout cover the
source before anything is extracted. A flattened file is made of pieces that
cover the source as well: without the extracted interfaces, and with every name
turned back into the object type that it replaced, they are the source. In each
interface of the source the replaced types stand one behind the other. A source
without an object type in place of a property's type stays as it is. -/
theorem flatten_preserves {source : Text} {file : SourceFile}
    (hread : SourceFile.read source = some file) :
    Tiles 0 (Text.byteLength source)
        ((State.ofFile file).layout.filterMap (Slot.span? (State.ofFile file).drafts)) ∧
      (∀ text, flatten source = .ok text →
        text = (pieces file).flatMap (Piece.written source) ∧
        source = (pieces file).flatMap (Piece.original source) ∧
        Tiles 0 (Text.byteLength source) ((pieces file).filterMap Piece.span?) ∧
        ∃ state, (State.ofFile file).flattenFrom 0 (totalWeight file) = .ok state ∧
          text = state.render source ∧
          ∀ draft ∈ state.drafts, draft.InOrder (draft.renamed.map Prod.fst)) ∧
      ((∀ decl ∈ file.interfaces, inlines (propertiesOf decl.members) = []) →
        flatten source = .ok source) := by
  obtain ⟨rfl, hitems⟩ := SourceFile.read_sound hread
  have hdecls := declsInOrder_of_itemsSound hitems (Nat.zero_le _)
  obtain ⟨htiles, horiginal⟩ := original_pieces hitems
  refine ⟨@tiles_layoutFrom 0 _ [] file.interfaces hdecls.1, fun text h => ?_, fun hplain => ?_⟩
  · simp only [flatten, hread, SourceFile.flatten, bind, Except.bind] at h
    cases hrun : (State.ofFile file).flattenFrom 0 (totalWeight file) with
    | error collision =>
      rw [hrun] at h
      cases h
    | ok state =>
      rw [hrun] at h
      obtain rfl : state.render file.text = text := Except.ok.inj h
      obtain ⟨hprint, hedits⟩ := flattenFrom_ofFile hitems hrun
      refine ⟨?_, horiginal.symm, htiles, state, rfl, rfl, hedits⟩
      rw [hprint]
      exact (flatMap_written file.text 0 file.interfaces).symm
  · have hrun : (State.ofFile file).flattenFrom 0 (totalWeight file) = .ok (State.ofFile file) := by
      refine flattenFrom_plain _ (fun draft hdraft => ?_) 0
      obtain ⟨decl, hdecl, rfl⟩ := List.mem_map.1 hdraft
      exact hplain decl hdecl
    have hrender : (State.ofFile file).render file.text = file.text := by
      calc (State.ofFile file).render file.text
          = printFrom file.text 0 file.interfaces := (flattenFrom_ofFile hitems hrun).1
        _ = (pieces file).flatMap (Piece.written file.text) :=
          (flatMap_written file.text 0 file.interfaces).symm
        _ = (pieces file).flatMap (Piece.original file.text) := written_eq_original file.text hplain
        _ = file.text := horiginal
    simp only [flatten, hread, SourceFile.flatten, bind, Except.bind, hrun, hrender]

/-- A documented interface with a nested object type, text before it and
behind it. -/
theorem flatten_preserves_documented :
    let source : Text :=
      "x = 1\n/** d */ interface A \x7b b: \x7b c: \x7b d: 'é' \x7d \x7d; e: 1 \x7d\n// y\n"
    let text : Text :=
      "x = 1\n" ++
      "export interface A_properties_b_properties_c \x7b\n    d: 'é';\n\x7d\n\n" ++
      "export interface A_properties_b \x7b\n    c: A_properties_b_properties_c;\n\x7d\n\n" ++
      "/** d */ interface A \x7b b: A_properties_b; e: 1 \x7d\n// y\n"
    flatten source = .ok text ∧
      ∃ file, SourceFile.read source = some file ∧
        text = (pieces file).flatMap (Piece.written source) ∧
        source = (pieces file).flatMap (Piece.original source) := by
  intro source text
  have hsome : (SourceFile.read source).isSome = true := by decide +kernel
  have hoption : (flatten source).toOption = some text := by decide +kernel
  obtain ⟨file, hread⟩ := Option.isSome_iff_exists.1 hsome
  have h : flatten source = .ok text := eq_ok_of_toOption hoption
  obtain ⟨-, hpieces, -⟩ := flatten_preserves hread
  obtain ⟨hwritten, horiginal, -⟩ := hpieces text h
  exact ⟨h, file, hread, hwritten, horiginal⟩

end InterfaceSchema.Flatten
