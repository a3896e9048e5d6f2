import InterfaceSchema.Proofs.Syntax.Scanning
import InterfaceSchema.Syntax.Grammar

/-!
# Where tokens stand

A position is a cut of a source if it lies between two characters. Tokens are
placed from a position on if each of them, and every comment before it, stands
in the source where it says, and none starts before the one in front of it
ends. Scanning places its tokens, and taking tokens from the front keeps what
follows placed.
-/

namespace InterfaceSchema

/-- A position between two characters of the source, or at its ends. -/
def Cut (source : Text) (position : Nat) : Prop :=
  ∃ before after, source = before ++ after ∧ Text.byteLength before = position

/-- The text stands in the source at the position. -/
def Stands (source text : Text) (position : Nat) : Prop :=
  ∃ before after, source = before ++ (text ++ after) ∧ Text.byteLength before = position

/-- Comments that stand in the source in this order, between two positions. -/
def CommentsPlaced (source : Text) (start stop : Nat) : List Comment → Prop
  | [] => start ≤ stop
  | comment :: rest =>
    start ≤ comment.start ∧ Stands source comment.text comment.start ∧
      CommentsPlaced source comment.stop stop rest

/-- A token that stands in the source from a position on, the comments of its
gap before it. -/
def Token.Placed (source : Text) (start : Nat) (token : Token) : Prop :=
  CommentsPlaced source start token.start token.gap.comments ∧
    Stands source token.text token.start

/-- Tokens that stand in the source in this order from a position on. -/
def Placed (source : Text) (start : Nat) : List Token → Prop
  | [] => True
  | token :: rest => token.Placed source start ∧ Placed source token.stop rest

section Cuts

variable {source text : Text} {position : Nat}

/-- The start of a source is a cut. -/
theorem Cut.zero (source : Text) : Cut source 0 := ⟨[], source, rfl, rfl⟩

/-- A source can be cut at its end. -/
theorem Cut.whole (source : Text) : Cut source (Text.byteLength source) :=
  ⟨source, [], (List.append_nil source).symm, rfl⟩

/-- No cut lies behind the end of the source. -/
theorem Cut.le (h : Cut source position) : position ≤ Text.byteLength source := by
  obtain ⟨before, after, rfl, rfl⟩ := h
  simp

/-- A text that stands somewhere starts at a cut. -/
theorem Stands.cut_start (h : Stands source text position) : Cut source position := by
  obtain ⟨before, after, rfl, rfl⟩ := h
  exact ⟨before, text ++ after, rfl, rfl⟩

/-- A text that stands somewhere ends at a cut. -/
theorem Stands.cut_stop (h : Stands source text position) :
    Cut source (position + Text.byteLength text) := by
  obtain ⟨before, after, rfl, rfl⟩ := h
  exact ⟨before ++ text, after, by simp, by simp⟩

/-- From a cut on, the rest of the source stands there. -/
theorem Cut.dropBytes (h : Cut source position) :
    ∃ before, source = before ++ Text.dropBytes position source ∧
      Text.byteLength before = position := by
  obtain ⟨before, after, rfl, rfl⟩ := h
  exact ⟨before, by rw [Text.dropBytes_byteLength_append], rfl⟩

end Cuts

section Comments

variable {source : Text} {start middle stop : Nat} {comments more : List Comment}

/-- Comments take up no negative room. -/
theorem CommentsPlaced.le (h : CommentsPlaced source start stop comments) : start ≤ stop := by
  induction comments generalizing start with
  | nil => exact h
  | cons comment rest ih =>
    obtain ⟨hstart, -, hrest⟩ := h
    have hstop := ih hrest
    have hspan : comment.start ≤ comment.stop := Nat.le_add_right _ _
    omega

/-- Placed comments are placed from any earlier position on as well. -/
theorem CommentsPlaced.mono (hle : start ≤ middle)
    (h : CommentsPlaced source middle stop comments) :
    CommentsPlaced source start stop comments := by
  cases comments with
  | nil => exact Nat.le_trans hle h
  | cons comment rest => exact ⟨Nat.le_trans hle h.1, h.2⟩

/-- Comments placed one after another. -/
theorem CommentsPlaced.append (hfirst : CommentsPlaced source start middle comments)
    (hsecond : CommentsPlaced source middle stop more) :
    CommentsPlaced source start stop (comments ++ more) := by
  induction comments generalizing start with
  | nil => exact hsecond.mono hfirst
  | cons comment rest ih => exact ⟨hfirst.1, hfirst.2.1, ih hfirst.2.2⟩

/-- Comments behind others are placed from the end of the last of those on. -/
theorem CommentsPlaced.of_append (h : CommentsPlaced source start stop (comments ++ more)) :
    CommentsPlaced source ((comments.getLast?.map Comment.stop).getD start) stop more ∧
      start ≤ (comments.getLast?.map Comment.stop).getD start := by
  induction comments generalizing start with
  | nil => exact ⟨h, Nat.le_refl _⟩
  | cons comment rest ih =>
    obtain ⟨hstart, -, hrest⟩ := h
    obtain ⟨hmore, hle⟩ := ih hrest
    have hspan : comment.start ≤ comment.stop := Nat.le_add_right _ _
    cases hlast : rest.getLast? with
    | none =>
      obtain rfl : rest = [] := List.getLast?_eq_none_iff.1 hlast
      exact ⟨hmore, by simp; omega⟩
    | some last =>
      rw [hlast] at hmore hle
      have hcons : (comment :: rest).getLast? = some last := by
        rw [List.getLast?_cons, hlast]
        rfl
      rw [hcons]
      exact ⟨hmore, by simp at hle ⊢; omega⟩

/-- The last of placed comments stands between the positions. -/
theorem CommentsPlaced.getLast? (h : CommentsPlaced source start stop comments) {comment : Comment}
    (hlast : comments.getLast? = some comment) :
    start ≤ comment.start ∧ Stands source comment.text comment.start ∧ comment.stop ≤ stop := by
  obtain ⟨before, rfl⟩ := List.getLast?_eq_some_iff.1 hlast
  obtain ⟨⟨hstart, hstands, hrest⟩, hle⟩ := h.of_append
  exact ⟨Nat.le_trans hle hstart, hstands, hrest⟩

end Comments

section Tokens

variable {source : Text} {start : Nat} {tokens : List Token}

/-- A placed token starts behind the position. -/
theorem Token.Placed.le {token : Token} (h : token.Placed source start) : start ≤ token.start :=
  h.1.le

/-- A token ends behind its start. -/
theorem Token.start_le_stop (token : Token) : token.start ≤ token.stop := Nat.le_add_right _ _

/-- Placed tokens are placed from any earlier position on as well. -/
theorem Placed.mono {earlier : Nat} (hle : earlier ≤ start) (h : Placed source start tokens) :
    Placed source earlier tokens := by
  cases tokens with
  | nil => trivial
  | cons token rest => exact ⟨⟨h.1.1.mono hle, h.1.2⟩, h.2⟩

/-- Tokens left out at the front leave the others placed. -/
theorem Placed.dropWhile (p : Token → Bool) (h : Placed source start tokens) :
    Placed source start (tokens.dropWhile p) := by
  induction tokens generalizing start with
  | nil => trivial
  | cons token rest ih =>
    rw [List.dropWhile_cons]
    split
    · have hle := Nat.le_trans h.1.le token.start_le_stop
      exact ih (h.2.mono hle)
    · exact h

/-- What is found behind tokens left out stands behind the first of them. -/
theorem Placed.dropWhile_le (p : Token → Bool) (h : Placed source start tokens) {first : Token}
    {rest : List Token} (hdrop : tokens.dropWhile p = first :: rest) :
    ∃ head more, tokens = head :: more ∧ head.start ≤ first.start := by
  cases tokens with
  | nil => simp at hdrop
  | cons token more =>
    refine ⟨token, more, rfl, ?_⟩
    rw [List.dropWhile_cons] at hdrop
    split at hdrop
    · have hmore := h.2.dropWhile p
      rw [hdrop] at hmore
      exact Nat.le_trans token.start_le_stop hmore.1.le
    · cases hdrop
      exact Nat.le_refl _

/-- A comment read behind a gap is the last of its comments, as long as the
gap keeps comments for a new line only behind a new line. -/
theorem Gap.comments_add {gap : Gap} (h : gap.fresh = false → gap.above = []) (comment : Comment) :
    (gap.add comment).comments = gap.comments ++ [comment] := by
  unfold Gap.add
  split
  · simp [Gap.comments]
  · next hfresh => simp [Gap.comments, h (by simpa using hfresh)]

/-- Such a gap stays one when a comment is added. -/
theorem Gap.above_add {gap : Gap} (h : gap.fresh = false → gap.above = []) (comment : Comment) :
    (gap.add comment).fresh = false → (gap.add comment).above = [] := by
  unfold Gap.add
  split
  · next hfresh => simp [hfresh]
  · exact h

/-- Scanning places the tokens it cuts. -/
theorem tokensFrom_placed {before text : Text} (hsource : source = before ++ text) (fuel : Nat)
    (first : Bool) {gap : Gap} (habove : gap.fresh = false → gap.above = [])
    (hgap : CommentsPlaced source start (Text.byteLength before) gap.comments) :
    Placed source start (Scan.tokensFrom fuel first gap (Text.byteLength before) text) := by
  induction fuel generalizing before text first gap start with
  | zero => trivial
  | succ fuel ih =>
    have hstands {found left : Text} (h : text = found ++ left) :
        Stands source found (Text.byteLength before) := ⟨before, left, by rw [hsource, h], rfl⟩
    have hcomment {found left : Text} (h : text = found ++ left) :
        Placed source start (Scan.tokensFrom fuel first
          (gap.add ⟨found, Text.byteLength before⟩)
          (Comment.stop ⟨found, Text.byteLength before⟩) left) := by
      have hnext : source = (before ++ found) ++ left := by rw [hsource, h, List.append_assoc]
      have hstop : Comment.stop ⟨found, Text.byteLength before⟩ =
          Text.byteLength (before ++ found) := by simp [Comment.stop]
      rw [hstop]
      refine ih hnext first (Gap.above_add habove _) ?_
      rw [Gap.comments_add habove]
      exact hgap.append ⟨Nat.le_refl _, hstands h, by rw [hstop]; exact Nat.le_refl _⟩
    have hwhole : Stands source text (Text.byteLength before) := hstands (List.append_nil text).symm
    unfold Scan.tokensFrom
    split
    · exact ⟨⟨hgap, hwhole⟩, trivial⟩
    · next rest =>
      exact hcomment (by rw [List.cons_append, List.cons_append, List.takeWhile_append_dropWhile])
    · next rest =>
      split
      · next body left hbody => exact hcomment (by rw [Scan.eq_of_blockComment hbody]; rfl)
      · exact ⟨⟨hgap, hwhole⟩, trivial⟩
    · next c rest _ _ =>
      split
      · have hnext : source = (before ++ [c]) ++ rest := by rw [hsource]; simp
        have hstop :
            Text.byteLength before + c.utf8Size = Text.byteLength (before ++ [c]) := by simp
        have hcomments : (if c = '\n' then gap.newline else gap).comments = gap.comments := by
          split <;> rfl
        have hfresh : (if c = '\n' then gap.newline else gap).fresh = false →
            (if c = '\n' then gap.newline else gap).above = [] := by
          split
          · simp [Gap.newline]
          · exact habove
        rw [hstop]
        refine ih hnext first hfresh ?_
        rw [hcomments]
        have hmore : CommentsPlaced source (Text.byteLength before)
            (Text.byteLength (before ++ [c])) [] := by
          rw [← hstop]
          exact Nat.le_add_right _ _
        have hall := hgap.append hmore
        rwa [List.append_nil] at hall
      · split
        · next kind found left hlexeme =>
          have heq := Scan.eq_of_lexeme? hlexeme
          have hnext : source = (before ++ found) ++ left := by
            rw [hsource, heq, List.append_assoc]
          have hstop : Token.stop ⟨kind, found, Text.byteLength before, gap⟩ =
              Text.byteLength (before ++ found) := by simp [Token.stop]
          dsimp only
          split
          · exact ⟨⟨hgap, hstands heq⟩, trivial⟩
          · refine ⟨⟨hgap, hstands heq⟩, ?_⟩
            rw [hstop]
            exact ih hnext false (fun _ => rfl) (Nat.le_refl _)
        · exact ⟨⟨hgap, hwhole⟩, trivial⟩

/-- The tokens of a source are placed in it. -/
theorem scan_placed (source : Text) : Placed source 0 (Token.scan source) :=
  @tokensFrom_placed source 0 [] source rfl _ true Gap.none (fun _ => rfl) (Nat.le_refl 0)

/-- The tokens of the rest of a source are placed in it. -/
theorem scanRest_placed {before rest : Text} (h : source = before ++ rest) :
    Placed source (Text.byteLength before) (Token.scanRest (Text.byteLength before) rest) :=
  tokensFrom_placed h _ false (fun _ => rfl) (Nat.le_refl _)

end Tokens

namespace Reach

open Grammar

/-- A reach that ends at a cut, with tokens behind it. -/
def Placed (source : Text) (reach : Reach) : Prop :=
  Cut source reach.stop ∧ InterfaceSchema.Placed source reach.stop reach.tokens

variable {source : Text} {start : Nat} {reach next : Reach}

/-- Over one token: the reach ends behind the token. -/
theorem take_placed {accept : Token → Bool}
    (hplaced : InterfaceSchema.Placed source start reach.tokens)
    (h : reach.take accept = some next) :
    next.Placed source ∧ startOf reach.tokens ≤ next.stop := by
  unfold take at h
  split at h
  · cases h
  · next token rest heq =>
    rw [heq] at hplaced ⊢
    split at h
    · cases h
      exact ⟨⟨hplaced.1.2.cut_stop, hplaced.2⟩, token.start_le_stop⟩
    · cases h

/-- Over symbols that make up a text: the reach ends behind the last one. -/
theorem takeJoined_placed {text : Text}
    (hplaced : InterfaceSchema.Placed source start reach.tokens)
    (h : reach.takeJoined text = some next) :
    next.Placed source ∧ startOf reach.tokens ≤ next.stop := by
  have go (tokens : List Token) : ∀ (text : Text) (stop start : Nat) (apart : Bool),
      InterfaceSchema.Placed source start tokens →
        takeJoined.go reach text stop tokens apart = some next →
          next.Placed source ∧ startOf tokens ≤ next.stop := by
    induction tokens with
    | nil => intro text stop start apart _ h; simp [takeJoined.go] at h
    | cons token rest ih =>
      intro text stop start apart hplaced h
      rw [takeJoined.go] at h
      split at h
      · split at h
        · cases h
          exact ⟨⟨hplaced.1.2.cut_stop, hplaced.2⟩, token.start_le_stop⟩
        · obtain ⟨hnext, hle⟩ := ih _ _ _ _ hplaced.2 h
          refine ⟨hnext, ?_⟩
          cases rest with
          | nil => simp [takeJoined.go] at h
          | cons follower more =>
            have hbehind := hplaced.2.1.le
            have hspan := token.start_le_stop
            simp only [startOf] at hle ⊢
            omega
      · cases h
  exact go reach.tokens text reach.stop start true hplaced h

/-- Over the end of a statement that needs no semicolon: the reach ends
behind the comments that belong to the statement. -/
theorem settle_placed (hplaced : reach.Placed source) (h : reach.settle = some next) :
    next.Placed source ∧ reach.stop ≤ next.stop := by
  unfold settle at h
  split at h
  · cases h
  · next token rest heq =>
    obtain ⟨hcut, htokens⟩ := hplaced
    rw [heq] at htokens
    obtain ⟨⟨hgap, hstands⟩, hrest⟩ := htokens
    split at h
    · cases h
      obtain ⟨habove, hle⟩ := CommentsPlaced.of_append hgap
      refine ⟨⟨?_, ⟨habove, hstands⟩, hrest⟩, hle⟩
      cases hlast : token.gap.beside.getLast? with
      | none => exact hcut
      | some comment =>
        obtain ⟨kept, hkept⟩ := List.getLast?_eq_some_iff.1 hlast
        rw [Gap.comments, hkept, List.append_assoc] at hgap
        exact hgap.of_append.1.2.1.cut_stop
    · cases h

/-- Over the end of a statement. -/
theorem endStatement_placed (hplaced : reach.Placed source) (h : reach.endStatement = some next) :
    next.Placed source ∧ reach.stop ≤ next.stop := by
  rw [endStatement] at h
  rcases Option.or_eq_some_iff.1 h with h | ⟨-, h⟩
  · obtain ⟨hnext, hle⟩ := take_placed hplaced.2 h
    refine ⟨hnext, ?_⟩
    cases htokens : reach.tokens with
    | nil => simp [take, htokens] at h
    | cons token rest =>
      have hbehind := (htokens ▸ hplaced.2 : InterfaceSchema.Placed source reach.stop
        (token :: rest)).1.le
      simp only [htokens, startOf] at hle
      omega
  · exact settle_placed hplaced h

end Reach

end InterfaceSchema
