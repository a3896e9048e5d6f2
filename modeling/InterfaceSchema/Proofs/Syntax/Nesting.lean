import InterfaceSchema.Proofs.Syntax.SourceReaders

/-!
# Spans inside of spans

A sound tree says of each node where its own parts stand. At any depth the spans
of a node therefore lie inside of it, and all spans of a file lie in its source.
The documentation of a member is the exception: it lies before the member, but
still behind the member before it.
-/

namespace InterfaceSchema

/-- A sound span that lies between two positions. -/
structure Span.Between (source : Text) (start stop : Nat) (span : Span) : Prop where
  sound : span.Sound source
  start_le : start ≤ span.start
  le_stop : span.stop ≤ stop

/-- The spans of a property without those of its type. -/
def PropertyHead.spans (head : PropertyHead) : List Span :=
  head.docs.toList ++ [head.span, head.nameSpan]

mutual

/-- The spans of a type and all its parts. -/
def TypeExpr.spans : TypeExpr → List Span
  | .keyword _ span | .literal _ span | .unsupported span => [span]
  | .reference _ parts span | .tuple parts span | .union parts span | .intersection parts span =>
    span :: typesSpans parts
  | .array inner span | .paren inner span => span :: inner.spans
  | .object members span => span :: membersSpans members

/-- The spans of types and all their parts. -/
def typesSpans : List TypeExpr → List Span
  | [] => []
  | type :: rest => type.spans ++ typesSpans rest

/-- The spans of a member and all its parts. -/
def Member.spans : Member → List Span
  | .property ⟨head, none⟩ => head.spans
  | .property ⟨head, some type⟩ => head.spans ++ type.spans
  | .index key value _ span => span :: (key.spans ++ value.spans)
  | .mapped span | .other span => [span]

/-- The spans of members and all their parts. -/
def membersSpans : List Member → List Span
  | [] => []
  | member :: rest => member.spans ++ membersSpans rest

end

/-- The spans of a statement and all its parts. -/
def Item.spans : Item → List Span
  | .interfaceItem decl =>
    decl.span :: decl.nameSpan ::
      (decl.parameters.toList ++ (typesSpans decl.bases ++ membersSpans decl.members))
  | .aliasItem decl =>
    decl.span :: decl.nameSpan :: (decl.parameters.toList ++ decl.type.spans)
  | .importItem span | .otherItem span => [span]

/-- All spans in the tree of a file. -/
def SourceFile.spans (file : SourceFile) : List Span := file.items.flatMap Item.spans

/-- The span of a type is among its spans. -/
theorem TypeExpr.span_mem_spans (type : TypeExpr) : type.span ∈ type.spans := by
  cases type <;> exact List.mem_cons_self

/-- The spans of one of several members are among those of all. -/
theorem mem_membersSpans {members : List Member} {member : Member} {span : Span}
    (hmember : member ∈ members) (h : span ∈ member.spans) : span ∈ membersSpans members := by
  induction members with
  | nil => exact absurd hmember List.not_mem_nil
  | cons first rest ih =>
    rcases List.mem_cons.1 hmember with rfl | hmember
    · exact List.mem_append_left _ h
    · exact List.mem_append_right _ (ih hmember)

section Between

variable {source : Text} {start stop : Nat}

/-- What lies between two positions lies between others around them. -/
theorem Span.Between.mono {span : Span} {earlier later : Nat} (h : span.Between source start stop)
    (hstart : earlier ≤ start) (hstop : stop ≤ later) : span.Between source earlier later :=
  ⟨h.sound, Nat.le_trans hstart h.start_le, Nat.le_trans h.le_stop hstop⟩

/-- A sound span lies between its own ends. -/
theorem Span.Sound.between {span : Span} (h : span.Sound source) :
    span.Between source span.start span.stop := ⟨h, Nat.le_refl _, Nat.le_refl _⟩

/-- A node lies between its ends as its parts do. -/
theorem between_cons {span : Span} {parts : List Span} (h : span.Sound source)
    (hparts : ∀ inner ∈ parts, inner.Between source span.start span.stop) :
    ∀ inner ∈ span :: parts, inner.Between source span.start span.stop := by
  intro inner hmem
  rcases List.mem_cons.1 hmem with rfl | hmem
  · exact h.between
  · exact hparts inner hmem

/-- A span that may be missing lies between the positions. -/
theorem SpanBetween.between {found : Option Span} (h : SpanBetween source start stop found) :
    ∀ span ∈ found.toList, span.Between source start stop := by
  cases found with
  | none => exact fun span hmem => absurd hmem List.not_mem_nil
  | some span =>
    obtain ⟨hspan, hstart, hstop⟩ := h
    exact fun other hmem => List.mem_singleton.1 hmem ▸ ⟨hspan, hstart, hstop⟩

/-- The spans of a property and its name lie between the property before it and
its end. -/
theorem PropertyHead.Sound.between {head : PropertyHead} (h : head.Sound source start)
    (hname : head.nameSpan.stop ≤ head.span.stop) :
    ∀ span ∈ head.spans, span.Between source start head.span.stop := by
  intro span hmem
  have hstart := h.docs.le
  rcases List.mem_append.1 hmem with hdocs | hmem
  · -- the documentation stands before the property and not inside of it
    exact (h.docs.between span hdocs).mono (Nat.le_refl _) h.span.le
  · have hinside : ∀ span ∈ [head.span, head.nameSpan],
        span.Between source head.span.start head.span.stop :=
      between_cons h.span fun other hother =>
        List.mem_singleton.1 hother ▸ ⟨h.name, h.start_le, hname⟩
    exact (hinside span hmem).mono hstart (Nat.le_refl _)

mutual

/-- All spans of a sound type lie inside of it. -/
theorem TypeExpr.Sound.between : (type : TypeExpr) → type.Sound source →
    ∀ span ∈ type.spans, span.Between source type.span.start type.span.stop
  | .keyword _ _, h | .literal _ _, h | .unsupported _, h =>
    between_cons h fun _ hmem => absurd hmem List.not_mem_nil
  | .reference _ parts _, ⟨h, hparts⟩ | .tuple parts _, ⟨h, hparts⟩ | .union parts _, ⟨h, hparts⟩
  | .intersection parts _, ⟨h, hparts⟩ => between_cons h (TypesSound.between parts hparts)
  | .array inner _, ⟨h, hstart, hinner, hstop⟩ | .paren inner _, ⟨h, hstart, hinner, hstop⟩ =>
    between_cons h fun span hmem => (TypeExpr.Sound.between inner hinner span hmem).mono hstart hstop
  | .object members _, ⟨h, _, hmembers⟩ => between_cons h (MembersSound.between members hmembers)

/-- All spans of sound types lie between the positions. -/
theorem TypesSound.between {start stop : Nat} : (types : List TypeExpr) →
    TypesSound source start stop types →
    ∀ span ∈ typesSpans types, span.Between source start stop
  | [], _ => fun _ hmem => absurd hmem List.not_mem_nil
  | type :: rest, ⟨hstart, htype, hrest⟩ => by
    intro span hmem
    rcases List.mem_append.1 hmem with hmem | hmem
    · exact (TypeExpr.Sound.between type htype span hmem).mono hstart hrest.le
    · exact (TypesSound.between rest hrest span hmem).mono
        (Nat.le_trans hstart htype.span.le) (Nat.le_refl _)

/-- All spans of a sound member lie between the position and its end. -/
theorem Member.Sound.between {start : Nat} : (member : Member) → member.Sound source start →
    ∀ span ∈ member.spans, span.Between source start member.span.stop
  | .property ⟨_, none⟩, ⟨hhead, hname⟩ => hhead.between hname
  | .property ⟨head, some type⟩, ⟨hhead, hname, htype, hstop⟩ => by
    intro span hmem
    have hle := htype.span.le
    have hstart := hhead.docs.le
    have hhead_start := hhead.start_le
    have hname_le := hhead.name.le
    rcases List.mem_append.1 hmem with hmem | hmem
    · exact hhead.between (by omega) span hmem
    · exact (TypeExpr.Sound.between type htype span hmem).mono (by omega) hstop
  | .index key value _ span, ⟨h, hstart, hkey_start, hkey, hvalue_start, hvalue, hstop⟩ => by
    intro inner hmem
    have hkey_le := hkey.span.le
    have hvalue_le := hvalue.span.le
    refine (between_cons h (fun part hpart => ?_) inner hmem).mono hstart (Nat.le_refl _)
    rcases List.mem_append.1 hpart with hpart | hpart
    · exact (TypeExpr.Sound.between key hkey part hpart).mono hkey_start (by omega)
    · exact (TypeExpr.Sound.between value hvalue part hpart).mono (by omega) hstop
  | .mapped span, ⟨h, hstart⟩ | .other span, ⟨h, hstart⟩ => by
    intro inner hmem
    obtain rfl := List.mem_singleton.1 hmem
    exact ⟨h, hstart, Nat.le_refl _⟩

/-- All spans of sound members lie between the positions. -/
theorem MembersSound.between {start stop : Nat} : (members : List Member) →
    MembersSound source start stop members →
    ∀ span ∈ membersSpans members, span.Between source start stop
  | [], _ => fun _ hmem => absurd hmem List.not_mem_nil
  | member :: rest, ⟨hmember, hrest⟩ => by
    intro span hmem
    obtain ⟨hspan, hstart⟩ := hmember.span
    rcases List.mem_append.1 hmem with hmem | hmem
    · exact (Member.Sound.between member hmember span hmem).mono (Nat.le_refl _) hrest.le
    · exact (MembersSound.between rest hrest span hmem).mono
        (Nat.le_trans hstart hspan.le) (Nat.le_refl _)

end

/-- A name and what follows it lie inside of a declaration. -/
theorem between_named {span name : Span} {parameters : Option Span} {parts : List Span}
    {middle : Nat} (h : span.Sound source) (hname : name.Sound source)
    (hstart : span.start ≤ name.start) (hparameters : SpanBetween source name.stop middle parameters)
    (hmiddle : middle ≤ span.stop)
    (hparts : ∀ inner ∈ parts, inner.Between source middle span.stop) :
    ∀ inner ∈ span :: name :: (parameters.toList ++ parts),
      inner.Between source span.start span.stop := by
  have hname_le := hname.le
  have hparameters_le := hparameters.le
  refine between_cons h fun inner hmem => ?_
  rcases List.mem_cons.1 hmem with rfl | hmem
  · exact ⟨hname, hstart, by omega⟩
  rcases List.mem_append.1 hmem with hmem | hmem
  · exact (hparameters.between inner hmem).mono (by omega) hmiddle
  · exact (hparts inner hmem).mono (by omega) (Nat.le_refl _)

/-- All spans of a sound statement lie inside of it. -/
theorem Item.Sound.between {item : Item} (h : item.Sound source start) :
    ∀ span ∈ item.spans, span.Between source item.span.start item.span.stop := by
  cases item with
  | interfaceItem decl =>
    have hdecl : decl.Sound source start := h
    obtain ⟨first, second, hparameters, hbases, hmembers⟩ := hdecl.parts
    have hbases_le := hbases.le
    have hmembers_le := hmembers.le
    refine between_named hdecl.span hdecl.name hdecl.name_start hparameters (by omega) ?_
    intro inner hmem
    rcases List.mem_append.1 hmem with hmem | hmem
    · exact (hbases.between decl.bases inner hmem).mono (Nat.le_refl _) hmembers_le
    · exact (hmembers.between decl.members inner hmem).mono hbases_le (Nat.le_refl _)
  | aliasItem decl =>
    have hdecl : decl.Sound source start := h
    obtain ⟨middle, hparameters, hmiddle, htype, hstop⟩ := hdecl.parts
    have htype_le := htype.span.le
    have hstop_le : decl.type.span.stop ≤ decl.span.stop := hstop
    refine between_named hdecl.span hdecl.name hdecl.name_start hparameters (by omega) ?_
    exact fun inner hmem => (htype.between decl.type inner hmem).mono hmiddle hstop_le
  | importItem span | otherItem span =>
    exact between_cons h.1 fun _ hmem => absurd hmem List.not_mem_nil

/-- Sound statements are sound each by itself. -/
theorem ItemsSound.of_mem {items : List Item} (h : ItemsSound source start items) {item : Item}
    (hmem : item ∈ items) : ∃ before, start ≤ before ∧ item.Sound source before := by
  induction items generalizing start with
  | nil => exact absurd hmem List.not_mem_nil
  | cons first rest ih =>
    obtain ⟨hfirst, hrest⟩ := h
    obtain ⟨hspan, hstart⟩ := hfirst.whole
    have hle := hspan.le
    rcases List.mem_cons.1 hmem with rfl | hmem
    · exact ⟨start, Nat.le_refl _, hfirst⟩
    · obtain ⟨before, hbefore, hitem⟩ := ih hrest hmem
      exact ⟨before, by omega, hitem⟩

/-- Of two sound statements the first one ends before the second one starts. -/
theorem ItemsSound.pairwise {items : List Item} (h : ItemsSound source start items) :
    items.Pairwise fun first second => first.span.stop ≤ second.span.start := by
  induction items generalizing start with
  | nil => exact List.Pairwise.nil
  | cons item rest ih =>
    obtain ⟨-, hrest⟩ := h
    refine List.pairwise_cons.2 ⟨fun other hmem => ?_, ih hrest⟩
    obtain ⟨before, hbefore, hother⟩ := hrest.of_mem hmem
    exact Nat.le_trans hbefore hother.whole.2

/-- All spans in the tree of a file lie in its source. -/
theorem SourceFile.sound_of_mem_spans {file : SourceFile} (h : ItemsSound source start file.items)
    {span : Span} (hmem : span ∈ file.spans) : span.Sound source := by
  obtain ⟨item, hitem, hspan⟩ := List.mem_flatMap.1 hmem
  obtain ⟨before, -, hsound⟩ := h.of_mem hitem
  exact (hsound.between span hspan).sound

end Between

end InterfaceSchema
