import InterfaceSchema.Proofs.Syntax.TypeReaders

/-!
# Members are read soundly

One step for every reader of members. The comments between two members are
kept until the second one is read, whose documentation may end them.
-/

namespace InterfaceSchema.Grammar

variable {source : Text} {start depth : Nat} {tokens rest : List Token}

/-- The end of placed tokens is placed. -/
theorem placed_suffix (hplaced : Placed source start tokens) (h : rest <:+ tokens) :
    Placed source start rest := by
  induction tokens with
  | nil =>
    obtain rfl : rest = [] := List.suffix_nil.1 h
    trivial
  | cons token more ih =>
    rcases List.suffix_cons_iff.1 h with rfl | hmore
    · exact hplaced
    · exact ih (placed_tail hplaced) hmore

/-- No token starts before the first one. -/
theorem startOf_le_suffix {token : Token} (hplaced : Placed source start tokens)
    (h : token :: rest <:+ tokens) : startOf tokens ≤ token.start := by
  cases tokens with
  | nil => simp at h
  | cons first more =>
    rcases List.suffix_cons_iff.1 h with heq | hmore
    · obtain ⟨rfl, rfl⟩ := List.cons_eq_cons.1 heq
      exact Nat.le_refl _
    · have hbehind := (placed_suffix hplaced.2 hmore).1.le
      exact Nat.le_trans first.start_le_stop hbehind

/-- The documentation that ends placed comments is one of them. -/
theorem docOf_sound {stop : Nat} {comments : List Comment}
    (h : CommentsPlaced source start stop comments) :
    SpanBetween source start stop (docOf comments) := by
  rw [docOf]
  cases hlast : comments.getLast? with
  | none => exact h.le
  | some comment =>
    obtain ⟨hstart, hstands, hstop⟩ := h.getLast? hlast
    dsimp only [Option.bind_some]
    split
    · have hspan : comment.span.Sound source :=
        ⟨hstands.cut_start, hstands.cut_stop, Nat.le_add_right _ _⟩
      exact ⟨hspan, hstart, hstop⟩
    · exact h.le

/-- A modifier is taken from the front. -/
theorem takeModifier_suffix {words : List String} (h : takeModifier words tokens = some rest) :
    rest <:+ tokens := by
  unfold takeModifier at h
  split at h
  · split at h
    · cases h
      exact List.suffix_cons _ _
    · cases h
  · cases h

/-- What follows a modifier, if there is one, is the end of the tokens. -/
theorem takeModifier_getD_suffix (words : List String) (tokens : List Token) :
    (takeModifier words tokens).getD tokens <:+ tokens := by
  cases h : takeModifier words tokens with
  | none => exact List.suffix_refl _
  | some rest => exact takeModifier_suffix h

/-- Modifiers are taken from the front. -/
theorem readModifiers_suffix (tokens : List Token) : (readModifiers tokens).2 <:+ tokens := by
  unfold readModifiers
  extract_lets visible static override
  have hoverride : override <:+ tokens :=
    (takeModifier_getD_suffix _ _).trans
      ((takeModifier_getD_suffix _ _).trans (takeModifier_getD_suffix _ _))
  split
  next readonly behind hreadonly =>
  have hbehind : behind <:+ override := by
    split at hreadonly
    · next more hmore =>
      cases hreadonly
      exact takeModifier_suffix hmore
    · cases hreadonly
      exact List.suffix_refl _
  split
  next async after hasync =>
  have hafter : after <:+ behind := by
    split at hasync
    · next more hmore =>
      cases hasync
      exact takeModifier_suffix hmore
    · cases hasync
      exact List.suffix_refl _
  have hall : after <:+ tokens := hafter.trans (hbehind.trans hoverride)
  split
  · next star more hstar =>
    obtain ⟨rfl, -⟩ := eq_of_takeSymbol hstar
    exact (List.suffix_cons _ _).trans hall
  · split
    · next more hget => exact (takeModifier_suffix hget).trans hall
    · exact hall

/-- The sign before the type of an index signature leaves the others placed. -/
theorem placed_takeClauseColon (hplaced : Placed source start tokens)
    (h : takeClauseColon tokens = some rest) : Placed source start rest := by
  obtain ⟨reach, hreach, rfl⟩ := Option.map_eq_some_iff.1 h
  obtain ⟨sign, -, htake⟩ := List.exists_of_findSome?_eq_some hreach
  have hbefore : Placed source start (Reach.before tokens).tokens := hplaced
  obtain ⟨hnext, hle⟩ := Reach.takeJoined_placed hbefore htake
  cases tokens with
  | nil => simp [Reach.takeJoined, Reach.takeJoined.go, Reach.before] at htake
  | cons token more => exact hnext.2.mono (Nat.le_trans hplaced.1.le hle)

namespace ReadersSound

/-- A body is read soundly. -/
theorem readBody (h : ReadersSound source depth) :
    ReadsLists source (MembersSound source) (Grammar.readBody (depth + 1)) := by
  intro setting start tokens rest members closing heq hs hplaced
  have hplain (heq : Grammar.readMembers depth setting [] tokens = some (members, closing, rest)) :
      ListRead source (MembersSound source) start members closing rest :=
    h.members heq hs (Nat.le_refl start) hplaced
  unfold Grammar.readBody at heq
  split at heq
  · next token next more =>
    split at heq
    · exact h.members heq hs hplaced.1.1 (hplaced.2.mono token.start_le_stop)
    · exact hplain heq
  · exact hplain heq

/-- Members are read soundly, one behind the other. -/
theorem readMembers (h : ReadersSound source depth) :
    ReadsMembers source (Grammar.readMembers (depth + 1)) := by
  intro setting start middle pending tokens rest members closing heq hs hpending hplaced
  unfold Grammar.readMembers at heq
  dsimp only at heq
  split at heq
  · cases heq
  next token behind =>
  have hcomments := hpending.append hplaced.1.1
  split at heq
  · simp only [Option.some.injEq, Prod.mk.injEq] at heq
    obtain ⟨rfl, rfl, rfl⟩ := heq
    exact ⟨hcomments.le, hplaced.1.2, hplaced.2⟩
  · simp only [Option.bind_eq_bind, Option.bind_eq_some_iff, Prod.exists] at heq
    obtain ⟨member, after, hmember, heq⟩ := heq
    have hread := h.member hmember hs hplaced (docOf_sound hcomments)
    split at heq
    · cases heq
    next separator more =>
    have hseparator := hread.rest
    split at heq
    · simp only [Option.bind_eq_some_iff, Prod.exists, Option.some.injEq, Prod.mk.injEq] at heq
      obtain ⟨others, closing', last, hothers, rfl, rfl, rfl⟩ := heq
      have hlist := h.members hothers hs hseparator.1.1 (hseparator.2.mono separator.start_le_stop)
      exact ⟨⟨hread.sound, hlist.sound⟩, hlist.stands, hlist.rest⟩
    split at heq
    · simp only [Option.bind_eq_some_iff, Prod.exists, Option.some.injEq, Prod.mk.injEq] at heq
      obtain ⟨others, closing', last, hothers, rfl, rfl, rfl⟩ := heq
      have hlist := h.members hothers hs (Nat.le_refl member.span.stop) hseparator
      exact ⟨⟨hread.sound, hlist.sound⟩, hlist.stands, hlist.rest⟩
    · cases heq

/-- A member is read soundly. -/
theorem readMember (h : ReadersSound source depth) :
    ReadsMember source (Grammar.readMember (depth + 1)) := by
  intro setting start middle docs tokens rest member heq hs hplaced hdocs
  have hstart := hdocs.le
  -- a member of which only the extent is read
  have hextent {reach : Reach} (honward : Onward source tokens reach) :
      Span.Sound source ⟨startOf tokens, reach.stop⟩ ∧ Placed source reach.stop reach.tokens :=
    ⟨⟨hplaced.cut_startOf, honward.1.1, honward.2.2⟩, honward.1.2⟩
  rw [Grammar.readMember] at heq
  dsimp only at heq
  split at heq
  · exact h.index heq hs hstart hplaced
  split at heq
  · simp only [Option.bind_eq_bind, Option.bind_eq_some_iff, Option.some.injEq,
      Prod.mk.injEq] at heq
    obtain ⟨reach, hfollow, rfl, rfl⟩ := heq
    obtain ⟨hspan, hrest⟩ := hextent (h.onward hfollow hs hplaced 8 (by decide))
    exact ⟨⟨hspan, hstart⟩, hrest⟩
  split at heq
  · next reach hfollow =>
    simp only [Option.some.injEq, Prod.mk.injEq] at heq
    obtain ⟨rfl, rfl⟩ := heq
    obtain ⟨hspan, hrest⟩ := hextent (h.onward hfollow hs hplaced 16 (by decide))
    exact ⟨⟨hspan, hstart⟩, hrest⟩
  have hsuffix := readModifiers_suffix tokens
  split at heq
  · cases heq
  next token behind hname =>
  rw [hname] at hsuffix
  have hkey := placed_suffix hplaced hsuffix
  have hle := startOf_le_suffix hplaced hsuffix
  split at heq
  · simp only [Option.bind_eq_bind, Option.bind_eq_some_iff] at heq
    obtain ⟨reach, hfollow, heq⟩ := heq
    have honward := h.onward hfollow hs hkey 8 (by decide)
    have hspan : Span.Sound source ⟨token.start, reach.stop⟩ :=
      ⟨hkey.1.2.cut_start, honward.1.1, honward.2.2⟩
    exact h.signature heq hs hplaced.cut_startOf hle hspan hdocs honward.1.2
  split at heq
  · exact h.signature heq hs hplaced.cut_startOf hle (Token.sound_span hkey.1.2) hdocs hkey.2
  · cases heq

/-- What stands behind the name of a member is read soundly. -/
theorem readSignature (h : ReadersSound source depth) :
    ReadsSignature source (Grammar.readSignature (depth + 1)) := by
  intro setting start first docs modifiers name span tokens rest member heq hs hcut hle hspan hdocs
    hplaced
  rw [Grammar.readSignature] at heq
  have hstart := hdocs.le
  have hspan_le := hspan.le
  split at heq
  next optional stop behind hmark =>
  obtain ⟨hstop, hcut_stop, hbehind⟩ :
      span.stop ≤ stop ∧ Cut source stop ∧ Placed source stop behind := by
    split at hmark
    · next mark more htake =>
      simp only [Prod.mk.injEq] at hmark
      obtain ⟨-, rfl, rfl⟩ := hmark
      obtain ⟨hstands, hmark_start, hmore⟩ := placed_takeSymbol hplaced htake
      exact ⟨Nat.le_trans hmark_start mark.start_le_stop, hstands.cut_stop, hmore⟩
    · simp only [Prod.mk.injEq] at hmark
      obtain ⟨-, rfl, rfl⟩ := hmark
      exact ⟨Nat.le_refl _, hspan.stop_cut, hplaced⟩
  -- the head of a property that ends behind its name
  have hhead {last : Nat} (hlast : Cut source last) (hbound : span.stop ≤ last) :
      PropertyHead.Sound source start
        ⟨name, span, optional, modifiers.readonly, docs, ⟨first, last⟩⟩ :=
    ⟨⟨hcut, hlast, by dsimp only; omega⟩, hspan, hle, hdocs⟩
  split at heq
  · cases heq
  next token more =>
  have htoken := hbehind.1.le
  split at heq
  · simp only [Option.bind_eq_bind, Option.bind_eq_some_iff, Option.some.injEq,
      Prod.mk.injEq] at heq
    obtain ⟨reach, hfollow, rfl, rfl⟩ := heq
    have honward := h.onward hfollow hs hbehind 8 (by decide)
    have hreach : token.start ≤ reach.stop := honward.2.2
    exact ⟨⟨⟨hcut, honward.1.1, by dsimp only; omega⟩, hstart⟩, honward.1.2⟩
  split at heq
  · simp only [Option.bind_eq_bind, Option.bind_eq_some_iff, Prod.exists, Option.some.injEq,
      Prod.mk.injEq] at heq
    obtain ⟨type, last, htype, rfl, rfl⟩ := heq
    have hread := h.type htype hs hbehind.2
    have hcolon := token.start_le_stop
    have htype_le := hread.sound.span.le
    have hbetween := hread.le hbehind.2
    have hname : span.stop ≤ type.span.start := by omega
    exact ⟨⟨hhead hread.sound.span.stop_cut (by omega), hname, hread.sound, Nat.le_refl _⟩,
      hread.rest⟩
  · simp only [Option.some.injEq, Prod.mk.injEq] at heq
    obtain ⟨rfl, rfl⟩ := heq
    exact ⟨⟨hhead hcut_stop hstop, hstop⟩, hbehind⟩

/-- An index signature is read soundly. -/
theorem readIndex (h : ReadersSound source depth) :
    ReadsIndex source (Grammar.readIndex (depth + 1)) := by
  intro setting start middle tokens rest member heq hs hstart hplaced
  rw [Grammar.readIndex] at heq
  simp only [Option.bind_eq_bind, Option.bind_eq_some_iff, Prod.exists, Option.some.injEq,
    Prod.mk.injEq] at heq
  obtain ⟨key, behind, hkey, closing, after, hclosing, colon, hcolon, value, last, hvalue, rfl,
    rfl⟩ := heq
  -- the key stands behind the first token, be that its bracket or a modifier
  cases tokens with
  | nil =>
    exact absurd rfl (@TypeRead.nonempty _ _ _ _ (@h.type _ middle _ _ _ hkey hs hplaced))
  | cons token more =>
    have hsuffix :
        (((token :: more).dropWhile fun token => !token.isSymbol "[").drop 3) <:+ more := by
      rw [List.dropWhile_cons]
      split
      · exact (List.drop_suffix _ _).trans (List.dropWhile_suffix _)
      · exact List.drop_suffix 2 more
    have hinner := placed_suffix hplaced.2 hsuffix
    have hread := h.type hkey hs hinner
    have hkey_start : token.start ≤ key.span.start :=
      Nat.le_trans token.start_le_stop (hread.le hinner)
    have hafter := placed_takeClauseColon (placed_behindSymbol hread.rest hclosing) hcolon
    have hread' := h.type hvalue hs hafter
    have hkey_le := hread.sound.span.le
    have hbetween := hread'.le hafter
    have hvalue_le := hread'.sound.span.le
    have hwhole : token.start ≤ value.span.stop := by omega
    have hspan : Span.Sound source ⟨token.start, value.span.stop⟩ :=
      ⟨hplaced.1.2.cut_start, hread'.sound.span.stop_cut, hwhole⟩
    exact ⟨⟨hspan, hstart, hkey_start, hread.sound, hbetween, hread'.sound, Nat.le_refl _⟩,
      hread'.rest⟩

end ReadersSound

end InterfaceSchema.Grammar
