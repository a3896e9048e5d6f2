import InterfaceSchema.Proofs.Syntax.MemberReaders

/-!
# Patterns are followed soundly

Following a pattern never goes back. From the first of a list of tokens on it
goes over a token or stays, as far as the front of the pattern says so. With
this the readers of all depths are sound.
-/

namespace InterfaceSchema

variable {source : Text} {start : Nat} {tokens rest : List Token} {reach next : Reach}

namespace Reach

open Grammar

/-- Over one token the reach goes on from the first of the tokens. -/
theorem take_onward {accept : Token → Bool}
    (hplaced : InterfaceSchema.Placed source start reach.tokens)
    (h : reach.take accept = some next) : Onward source reach.tokens next := by
  obtain ⟨hnext, hle⟩ := take_placed hplaced h
  refine ⟨hnext, ?_, hle⟩
  intro hnil
  simp [take, hnil] at h

/-- Over symbols that make up a text the reach goes on from the first of the
tokens. -/
theorem takeJoined_onward {text : Text}
    (hplaced : InterfaceSchema.Placed source start reach.tokens)
    (h : reach.takeJoined text = some next) : Onward source reach.tokens next := by
  obtain ⟨hnext, hle⟩ := takeJoined_placed hplaced h
  refine ⟨hnext, ?_, hle⟩
  intro hnil
  simp [takeJoined, takeJoined.go, hnil] at h

end Reach

/-- A reach that goes on from placed tokens is not before them. -/
theorem Onward.le (h : Onward source tokens reach) (hplaced : Placed source start tokens) :
    start ≤ reach.stop :=
  Nat.le_trans (hplaced.le_startOf h.2.1) h.2.2

/-- A reach that goes on further still does. -/
theorem Onward.trans (h : Onward source tokens reach)
    (hnext : next.Placed source ∧ reach.stop ≤ next.stop) : Onward source tokens next :=
  ⟨hnext.1, h.2.1, Nat.le_trans h.2.2 hnext.2⟩

/-- Behind a type the reach goes on from the first of its tokens. -/
theorem TypeRead.onward {type : TypeExpr} (h : TypeRead source tokens type rest)
    (assignable : Bool) : Onward source tokens ⟨type.span.stop, rest, assignable⟩ :=
  ⟨⟨h.sound.span.stop_cut, h.rest⟩, h.nonempty, Nat.le_trans h.start_le h.sound.span.le⟩

/-- Behind what is read from the text of the source, the rest being scanned,
the reach is placed. -/
theorem scanned_placed {position : Nat} {found left : Text} {assignable : Bool}
    (hcut : Cut source position) (h : Text.dropBytes position source = found ++ left) :
    Reach.Placed source ⟨position + Text.byteLength found,
      Token.scanRest (position + Text.byteLength found) left, assignable⟩ := by
  obtain ⟨before, hsource, rfl⟩ := hcut.dropBytes
  rw [h, ← List.append_assoc] at hsource
  rw [← Text.byteLength_append]
  exact ⟨⟨before ++ found, left, hsource, rfl⟩, scanRest_placed hsource⟩

namespace Front

variable {first second : Front}

/-- A reach that goes on does so whatever is known of the pattern. -/
theorem Holds.of_onward (h : Onward source tokens reach) : first.Holds source tokens reach := by
  cases first with
  | takes => exact h
  | may => exact .inl h
  | free => trivial

/-- What a reach is by one of two ways to start, it is by both together. -/
theorem Holds.join_left (h : first.Holds source tokens reach) :
    (first.join second).Holds source tokens reach := by
  cases first with
  | takes => exact of_onward h
  | may => cases second <;> first | exact h | trivial
  | free => cases second <;> trivial

/-- Two ways to start count alike. -/
theorem join_comm (first second : Front) : first.join second = second.join first := by
  cases first <;> cases second <;> rfl

/-- What a reach is by the other of two ways to start, it is by both
together. -/
theorem Holds.join_right (h : second.Holds source tokens reach) :
    (first.join second).Holds source tokens reach := by
  rw [join_comm]
  exact h.join_left

end Front

namespace Grammar.ReadersSound

variable {depth : Nat}

/-- Patterns that show at once that they start with a token are followed over
one. -/
theorem follow_token (h : ReadersSound source depth) {setting : Setting} {pattern : Pattern}
    (heq : follow (depth + 1) setting pattern reach = some next) (hs : setting.source = source)
    (hplaced : Placed source start reach.tokens) (hfront : pattern.front 1 = .takes) :
    Onward source reach.tokens next := by
  cases pattern with
  | never =>
    rw [follow] at heq
    cases heq
  | word | wordBut | symbol | kind =>
    rw [follow] at heq
    exact Reach.take_onward hplaced heq
  | joined =>
    rw [follow] at heq
    exact Reach.takeJoined_onward hplaced heq
  | type | cast =>
    rw [follow] at heq
    simp only [Option.bind_eq_bind, Option.bind_eq_some_iff, Prod.exists, Option.some.injEq] at heq
    obtain ⟨type, rest, htype, rfl⟩ := heq
    exact (h.type htype hs hplaced).onward false
  | tightType =>
    rw [follow] at heq
    simp only [Option.bind_eq_bind, Option.bind_eq_some_iff, Prod.exists, Option.some.injEq] at heq
    obtain ⟨type, rest, htype, rfl⟩ := heq
    exact (h.prefixed htype hs hplaced).onward false
  | regex =>
    rw [follow] at heq
    simp only [Option.bind_eq_bind, Option.bind_eq_some_iff, Prod.exists, Option.some.injEq] at heq
    obtain ⟨token, hhead, found, left, hregex, rfl⟩ := heq
    rw [hs] at hregex
    obtain ⟨more, htokens⟩ := List.head?_eq_some_iff.1 hhead
    rw [htokens] at hplaced ⊢
    exact ⟨scanned_placed hplaced.1.2.cut_start (Scan.eq_of_regex? hregex), List.cons_ne_nil _ _,
      Nat.le_add_right _ _⟩
  | template piece =>
    rw [follow] at heq
    simp only [Option.bind_eq_bind, Option.bind_eq_some_iff] at heq
    obtain ⟨opened, hopened, hrest⟩ := heq
    have honward := Reach.take_onward hplaced hopened
    exact honward.trans (h.followOn hrest hs honward.1)
  | _ => cases hfront

/-- Patterns are followed soundly from a place behind a token. -/
theorem followOn_succ (h : ReadersSound source depth) :
    FollowsOn source (follow (depth + 1)) := by
  intro setting pattern reach next heq hs hplaced
  have hstay : reach.Placed source ∧ reach.stop ≤ reach.stop := ⟨hplaced, Nat.le_refl _⟩
  have htoken (hfront : pattern.front 1 = .takes) : next.Placed source ∧ reach.stop ≤ next.stop :=
    have honward := h.follow_token heq hs hplaced.2 hfront
    ⟨honward.1, honward.le hplaced.2⟩
  have htrans {middle next : Reach} (hfirst : middle.Placed source ∧ reach.stop ≤ middle.stop)
      (hsecond : next.Placed source ∧ middle.stop ≤ next.stop) :
      next.Placed source ∧ reach.stop ≤ next.stop :=
    ⟨hsecond.1, Nat.le_trans hfirst.2 hsecond.2⟩
  cases pattern with
  | never | word | wordBut | symbol | kind | joined | type | cast | tightType | regex | template =>
    exact htoken rfl
  | nothing | assignable =>
    rw [follow] at heq
    cases heq
    exact hstay
  | both first second =>
    rw [follow] at heq
    simp only [Option.bind_eq_bind, Option.bind_eq_some_iff] at heq
    obtain ⟨middle, hfirst, hsecond⟩ := heq
    have hmiddle := h.followOn hfirst hs hplaced
    exact htrans hmiddle (h.followOn hsecond hs hmiddle.1)
  | either first second =>
    rw [follow] at heq
    split at heq
    · next middle hfirst =>
      cases heq
      exact h.followOn hfirst hs hplaced
    · exact h.followOn heq hs hplaced
  | many each =>
    rw [follow] at heq
    split at heq
    · next middle heach =>
      have hmiddle := h.followOn heach hs hplaced
      exact htrans hmiddle (h.followOn heq hs hmiddle.1)
    · cases heq
      exact hstay
  | whenever test yes no =>
    rw [follow] at heq
    split at heq
    · exact h.followOn heq hs hplaced
    · exact h.followOn heq hs hplaced
  | sameLine | sameExpression | assigned =>
    rw [follow] at heq
    split at heq <;> cases heq
    exact hstay
  | inside | lined | part =>
    rw [follow] at heq
    exact h.followOn heq hs hplaced
  | members =>
    rw [follow] at heq
    simp only [Option.bind_eq_bind, Option.bind_eq_some_iff, Prod.exists, Option.some.injEq] at heq
    obtain ⟨members, closing, rest, hmembers, rfl⟩ := heq
    have hlist := h.body hmembers hs hplaced.2
    exact ⟨⟨hlist.stands.cut_stop, hlist.rest⟩,
      Nat.le_trans hlist.sound.le closing.start_le_stop⟩
  | templateRest piece =>
    rw [follow] at heq
    simp only [Option.bind_eq_bind, Option.bind_eq_some_iff, Prod.exists] at heq
    obtain ⟨found, left, htext, heq⟩ := heq
    rw [hs] at htext
    have hmiddle := @scanned_placed _ _ _ _ false hplaced.1 (Scan.eq_of_templateText htext)
    have hle : reach.stop ≤ reach.stop + Text.byteLength found := Nat.le_add_right _ _
    split at heq
    · cases heq
      exact ⟨hmiddle, hle⟩
    · simp only [Option.bind_eq_some_iff] at heq
      obtain ⟨inner, hinner, closed, hclosed, hrest⟩ := heq
      have hinside := htrans ⟨hmiddle, hle⟩ (h.followOn hinner hs hmiddle)
      have honward := Reach.take_onward hinside.1.2 hclosed
      have hbehind := htrans hinside ⟨honward.1, honward.le hinside.1.2⟩
      exact htrans hbehind (h.followOn hrest hs hbehind.1)
  | semicolon =>
    rw [follow] at heq
    exact Reach.endStatement_placed hplaced heq
  | settled =>
    rw [follow] at heq
    exact Reach.settle_placed hplaced heq

/-- Patterns are followed soundly from the first of a list of tokens on. -/
theorem followFirst_succ (h : ReadersSound source depth) :
    FollowsFirst source (follow (depth + 1)) := by
  intro setting pattern reach next start steps heq hs hplaced hstop
  cases steps with
  | zero => trivial
  | succ steps =>
  have htoken (hfront : pattern.front 1 = .takes) {front : Front} :
      front.Holds source reach.tokens next :=
    .of_onward (h.follow_token heq hs hplaced hfront)
  have hstay (assignable : Bool) :
      Front.may.Holds source reach.tokens { reach with assignable := assignable } :=
    .inr ⟨rfl, hstop⟩
  cases pattern with
  | never | word | wordBut | symbol | kind | joined | type | cast | tightType | regex | template =>
    exact htoken rfl
  | nothing =>
    rw [follow] at heq
    cases heq
    exact hstay reach.assignable
  | assignable can =>
    rw [follow] at heq
    cases heq
    exact hstay can
  | sameLine | sameExpression | assigned =>
    rw [follow] at heq
    split at heq <;> cases heq
    exact hstay reach.assignable
  | both first second =>
    rw [follow] at heq
    simp only [Option.bind_eq_bind, Option.bind_eq_some_iff] at heq
    obtain ⟨middle, hfirst, hsecond⟩ := heq
    have hmiddle := h.followFirst steps hfirst hs hplaced hstop
    have honward (honward : Onward source reach.tokens middle) :
        Onward source reach.tokens next := honward.trans (h.followOn hsecond hs honward.1)
    rw [Pattern.front]
    split
    · next hfront =>
      rw [hfront] at hmiddle
      exact honward hmiddle
    · next hfront =>
      rw [hfront] at hmiddle
      rcases hmiddle with hmiddle | ⟨htokens, hsame⟩
      · exact .of_onward (honward hmiddle)
      · rw [← htokens] at hplaced hsame ⊢
        exact h.followFirst steps hsecond hs hplaced hsame
    · trivial
  | either first second =>
    rw [follow] at heq
    split at heq
    · next middle hfirst =>
      cases heq
      exact (h.followFirst steps hfirst hs hplaced hstop).join_left
    · exact (h.followFirst steps heq hs hplaced hstop).join_right
  | many each =>
    rw [follow] at heq
    rw [Pattern.front]
    split
    · trivial
    · next hfront =>
      split at heq
      · next middle heach =>
        have hmiddle := h.followFirst steps heach hs hplaced hstop
        have hmay : Front.may.Holds source reach.tokens middle := by
          cases hsteps : each.front steps with
          | takes =>
            rw [hsteps] at hmiddle
            exact .inl hmiddle
          | may =>
            rw [hsteps] at hmiddle
            exact hmiddle
          | free => exact absurd hsteps hfront
        rcases hmay with hmiddle | ⟨htokens, hsame⟩
        · exact .inl (hmiddle.trans (h.followOn heq hs hmiddle.1))
        · rw [← htokens] at hplaced hsame ⊢
          have hagain := h.followFirst (steps + 1) heq hs hplaced hsame
          rw [Pattern.front] at hagain
          split at hagain
          · next hfree => exact absurd hfree hfront
          · exact hagain
      · cases heq
        exact hstay reach.assignable
  | whenever test yes no =>
    rw [follow] at heq
    split at heq
    · exact (h.followFirst steps heq hs hplaced hstop).join_left
    · exact (h.followFirst steps heq hs hplaced hstop).join_right
  | inside | lined | part =>
    rw [follow] at heq
    exact h.followFirst steps heq hs hplaced hstop
  | members | templateRest | semicolon | settled => trivial

end Grammar.ReadersSound

/-- All readers read soundly, whatever the depth. -/
theorem Grammar.readersSound (source : Text) (depth : Nat) : ReadersSound source depth := by
  induction depth with
  | zero =>
    -- nothing is read at depth zero
    constructor <;>
      simp [ReadsTypes, ReadsParts, ReadsOn, ReadsLists, ReadsMembers, ReadsMember, ReadsSignature,
        ReadsIndex, FollowsOn, FollowsFirst, readType, readUnion, readUnionParts, readIntersection,
        readIntersectionParts, readPrefixed, readPostfixed, readBrackets, readPrimary,
        readReference, readNamed, readArguments, readItems, readItem, readBody, readMembers,
        readMember, readSignature, readIndex, follow]
  | succ depth h =>
    exact
      { type := h.readType
        union := h.readUnion
        unionParts := h.readUnionParts
        intersection := h.readIntersection
        intersectionParts := h.readIntersectionParts
        prefixed := h.readPrefixed
        postfixed := h.readPostfixed
        brackets := h.readBrackets
        primary := h.readPrimary
        reference := h.readReference
        named := h.readNamed
        arguments := h.readArguments
        items := h.readItems
        item := h.readItem
        body := h.readBody
        members := h.readMembers
        member := h.readMember
        signature := h.readSignature
        index := h.readIndex
        followOn := h.followOn_succ
        followFirst := h.followFirst_succ }

end InterfaceSchema
