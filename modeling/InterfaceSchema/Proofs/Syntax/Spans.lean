import InterfaceSchema.Proofs.Syntax.Placement

/-!
# Spans in order

Every node of a syntax tree says where it was read from. Spans are sound if
they start and end at cuts of the source, if the parts of a node stand inside
it, one behind the other, and if the name of a property stands before its type
and its documentation before both. What is read is sound as well if it stands
between the first token that was given and the tokens that are left.
-/

namespace InterfaceSchema

open Grammar

/-- A span between two cuts of the source. -/
structure Span.Sound (source : Text) (span : Span) : Prop where
  start_cut : Cut source span.start
  stop_cut : Cut source span.stop
  le : span.start ≤ span.stop

/-- Where a member stands. -/
def Member.span : Member → Span
  | .property found => found.head.span
  | .index _ _ _ span | .mapped span | .other span => span

/-- A span, if there is one, between two positions. -/
def SpanBetween (source : Text) (start stop : Nat) : Option Span → Prop
  | none => start ≤ stop
  | some span => span.Sound source ∧ start ≤ span.start ∧ span.stop ≤ stop

/-- The spans of a property behind a position, up to its name. -/
structure PropertyHead.Sound (source : Text) (start : Nat) (head : PropertyHead) : Prop where
  span : head.span.Sound source
  name : head.nameSpan.Sound source
  start_le : head.span.start ≤ head.nameSpan.start
  docs : SpanBetween source start head.span.start head.docs

mutual

/-- A type whose parts stand inside it in order, at any depth. -/
def TypeExpr.Sound (source : Text) : TypeExpr → Prop
  | .keyword _ span | .literal _ span | .unsupported span => span.Sound source
  | .reference _ parts span | .tuple parts span | .union parts span | .intersection parts span =>
    span.Sound source ∧ TypesSound source span.start span.stop parts
  | .array inner span | .paren inner span =>
    span.Sound source ∧ span.start ≤ inner.span.start ∧ inner.Sound source ∧
      inner.span.stop ≤ span.stop
  | .object members span =>
    span.Sound source ∧ span.start < span.stop ∧ MembersSound source span.start span.stop members

/-- Types that stand between two positions in order. -/
def TypesSound (source : Text) (start stop : Nat) : List TypeExpr → Prop
  | [] => start ≤ stop
  | type :: rest =>
    start ≤ type.span.start ∧ type.Sound source ∧ TypesSound source type.span.stop stop rest

/-- A member that stands behind a position, its documentation as well. -/
def Member.Sound (source : Text) (start : Nat) : Member → Prop
  | .property ⟨head, none⟩ => head.Sound source start ∧ head.nameSpan.stop ≤ head.span.stop
  | .property ⟨head, some type⟩ =>
    head.Sound source start ∧ head.nameSpan.stop ≤ type.span.start ∧ type.Sound source ∧
      type.span.stop ≤ head.span.stop
  | .index key value _ span =>
    span.Sound source ∧ start ≤ span.start ∧ span.start ≤ key.span.start ∧ key.Sound source ∧
      key.span.stop ≤ value.span.start ∧ value.Sound source ∧ value.span.stop ≤ span.stop
  | .mapped span | .other span => span.Sound source ∧ start ≤ span.start

/-- Members that stand between two positions in order. -/
def MembersSound (source : Text) (start stop : Nat) : List Member → Prop
  | [] => start ≤ stop
  | member :: rest => member.Sound source start ∧ MembersSound source member.span.stop stop rest

end

section

variable {source : Text} {start stop : Nat}

/-- The span of a sound type is sound. -/
theorem TypeExpr.Sound.span {type : TypeExpr} (h : type.Sound source) : type.span.Sound source := by
  cases type <;> first | exact h | exact h.1

/-- Types in order take up no negative room. -/
theorem TypesSound.le {types : List TypeExpr} (h : TypesSound source start stop types) :
    start ≤ stop := by
  induction types generalizing start with
  | nil => exact h
  | cons type rest ih =>
    obtain ⟨hstart, htype, hrest⟩ := h
    have hspan := htype.span.le
    have hstop := ih hrest
    omega

/-- Types in order before a position are so before any later one. -/
theorem TypesSound.mono_stop {types : List TypeExpr} {later : Nat} (hle : stop ≤ later)
    (h : TypesSound source start stop types) : TypesSound source start later types := by
  induction types generalizing start with
  | nil => exact Nat.le_trans h hle
  | cons type rest ih => exact ⟨h.1, h.2.1, ih h.2.2⟩

/-- Types in order behind a position are so behind any earlier one. -/
theorem TypesSound.mono_start {types : List TypeExpr} {earlier : Nat} (hle : earlier ≤ start)
    (h : TypesSound source start stop types) : TypesSound source earlier stop types := by
  cases types with
  | nil => exact Nat.le_trans hle h
  | cons type rest => exact ⟨Nat.le_trans hle h.1, h.2⟩

/-- A span that may be missing leaves room between the positions. -/
theorem SpanBetween.le {span : Option Span} (h : SpanBetween source start stop span) :
    start ≤ stop := by
  cases span with
  | none => exact h
  | some span => exact Nat.le_trans h.2.1 (Nat.le_trans h.1.le h.2.2)

/-- A span behind a position is so behind any earlier one. -/
theorem SpanBetween.mono_start {earlier : Nat} {span : Option Span} (hle : earlier ≤ start)
    (h : SpanBetween source start stop span) : SpanBetween source earlier stop span := by
  cases span with
  | none => exact Nat.le_trans hle h
  | some span => exact ⟨h.1, Nat.le_trans hle h.2.1, h.2.2⟩

/-- The span of a sound member is sound and stands behind the position. -/
theorem Member.Sound.span {member : Member} (h : member.Sound source start) :
    member.span.Sound source ∧ start ≤ member.span.start := by
  cases member with
  | property property =>
    obtain ⟨head, type⟩ := property
    cases type with
    | none => exact ⟨h.1.span, h.1.docs.le⟩
    | some type => exact ⟨h.1.span, h.1.docs.le⟩
  | index key value readonly span => exact ⟨h.1, h.2.1⟩
  | mapped span => exact h
  | other span => exact h

/-- A member that stands behind a position stands behind any earlier one. -/
theorem Member.Sound.mono_start {member : Member} {earlier : Nat} (hle : earlier ≤ start)
    (h : member.Sound source start) : member.Sound source earlier := by
  have hhead {head : PropertyHead} (h : head.Sound source start) : head.Sound source earlier :=
    ⟨h.span, h.name, h.start_le, h.docs.mono_start hle⟩
  cases member with
  | property property =>
    obtain ⟨head, type⟩ := property
    cases type with
    | none => exact ⟨hhead h.1, h.2⟩
    | some type => exact ⟨hhead h.1, h.2⟩
  | index key value readonly span => exact ⟨h.1, Nat.le_trans hle h.2.1, h.2.2⟩
  | mapped span => exact ⟨h.1, Nat.le_trans hle h.2⟩
  | other span => exact ⟨h.1, Nat.le_trans hle h.2⟩

/-- Members in order behind a position are so behind any earlier one. -/
theorem MembersSound.mono_start {members : List Member} {earlier : Nat} (hle : earlier ≤ start)
    (h : MembersSound source start stop members) : MembersSound source earlier stop members := by
  cases members with
  | nil => exact Nat.le_trans hle h
  | cons member rest => exact ⟨h.1.mono_start hle, h.2⟩

/-- Members in order before a position are so before any later one. -/
theorem MembersSound.mono_stop {members : List Member} {later : Nat} (hle : stop ≤ later)
    (h : MembersSound source start stop members) : MembersSound source start later members := by
  induction members generalizing start with
  | nil => exact Nat.le_trans h hle
  | cons member rest ih => exact ⟨h.1, ih h.2⟩

/-- Members in order take up no negative room. -/
theorem MembersSound.le {members : List Member} (h : MembersSound source start stop members) :
    start ≤ stop := by
  induction members generalizing start with
  | nil => exact h
  | cons member rest ih =>
    obtain ⟨hmember, hrest⟩ := h
    obtain ⟨hspan, hstart⟩ := hmember.span
    have hle := hspan.le
    have hstop := ih hrest
    omega

end

/-- Sound reading of a type: the type is sound and stands between the first of
the tokens and those that follow. -/
structure TypeRead (source : Text) (tokens : List Token) (type : TypeExpr) (rest : List Token) :
    Prop where
  sound : type.Sound source
  nonempty : tokens ≠ []
  start_le : startOf tokens ≤ type.span.start
  rest : Placed source type.span.stop rest

/-- Sound reading of a list that a bracket closes, the opening one being read:
what stands in the list stands before the bracket. -/
structure ListRead {α : Type} (source : Text) (inOrder : Nat → Nat → List α → Prop) (start : Nat)
    (list : List α) (closing : Token) (rest : List Token) : Prop where
  sound : inOrder start closing.start list
  stands : Stands source closing.text closing.start
  rest : Placed source closing.stop rest

/-- Sound reading of a member. -/
structure MemberRead (source : Text) (start : Nat) (member : Member) (rest : List Token) :
    Prop where
  sound : member.Sound source start
  rest : Placed source member.span.stop rest

section

variable {source : Text} {start : Nat} {tokens rest : List Token} {type : TypeExpr}

/-- Tokens placed from a position on start behind it. -/
theorem Placed.le_startOf (h : Placed source start tokens) (hne : tokens ≠ []) :
    start ≤ startOf tokens := by
  cases tokens with
  | nil => exact absurd rfl hne
  | cons token rest => exact h.1.le

/-- The first of placed tokens starts at a cut. -/
theorem Placed.cut_startOf (h : Placed source start tokens) : Cut source (startOf tokens) := by
  cases tokens with
  | nil => exact Cut.zero source
  | cons token rest => exact h.1.2.cut_start

/-- A type stands behind the position that its tokens are placed from. -/
theorem TypeRead.le (h : TypeRead source tokens type rest) (hplaced : Placed source start tokens) :
    start ≤ type.span.start :=
  Nat.le_trans (hplaced.le_startOf h.nonempty) h.start_le

/-- The first token ends before a type behind it starts. -/
theorem TypeRead.behind {token : Token} (h : TypeRead source tokens type rest)
    (hplaced : Placed source start (token :: tokens)) : token.stop ≤ type.span.start :=
  h.le hplaced.2

/-- The span from a first token on over a type. -/
theorem Span.sound_over (h : TypeRead source tokens type rest)
    (hcut : Cut source start) (hle : start ≤ type.span.start) :
    Span.Sound source ⟨start, type.span.stop⟩ :=
  ⟨hcut, h.sound.span.stop_cut, Nat.le_trans hle h.sound.span.le⟩

/-- The span of a token that stands in the source. -/
theorem Token.sound_span {token : Token} (h : Stands source token.text token.start) :
    token.span.Sound source :=
  ⟨h.cut_start, h.cut_stop, token.start_le_stop⟩

/-- A symbol taken from the front is the first token. -/
theorem eq_of_takeSymbol {symbol : String} {token : Token}
    (h : takeSymbol symbol tokens = some (token, rest)) :
    tokens = token :: rest ∧ token.isSymbol symbol = true := by
  unfold takeSymbol at h
  split at h
  · cases h
  · split at h
    · next hsymbol =>
      cases h
      exact ⟨rfl, hsymbol⟩
    · cases h

/-- A symbol with a text takes up room. -/
theorem Token.lt_stop_of_isSymbol {token : Token} {symbol : String}
    (h : token.isSymbol symbol = true) (hne : symbol.toList ≠ []) : token.start < token.stop := by
  have htext : token.text = symbol.toList := by
    simp only [Token.isSymbol, Bool.and_eq_true, beq_iff_eq] at h
    exact h.2
  obtain ⟨c, more, hmore⟩ := List.exists_cons_of_ne_nil hne
  have hc := c.utf8Size_pos
  rw [Token.stop, htext, hmore, Text.byteLength_cons]
  omega

end

end InterfaceSchema
