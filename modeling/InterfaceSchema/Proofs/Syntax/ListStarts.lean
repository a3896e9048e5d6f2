import InterfaceSchema.Proofs.Syntax.Contiguity
import InterfaceSchema.Proofs.Syntax.Operators

/-!
# Where lists of types start

A union or intersection starts with the first of the tokens it is read from, or right
behind a word or sign that is left out of its span. For a list that is read as a part of
one of its own kind the second is the case: no other operator holds such a part
together. A sign in front of a single part leaves no trace: what is read is what stands
behind the sign.
-/

namespace InterfaceSchema

open Grammar

/-- Whether the type is an intersection. -/
def TypeExpr.isIntersection : TypeExpr → Bool
  | .intersection .. => true
  | _ => false

/-- One of these tokens stands in the source, and the token right behind it starts at
the position. -/
def LedBy (source : Text) (leading : Token → Bool) (position : Nat) : Prop :=
  ∃ token : Token, leading token = true ∧ Stands source token.text token.start ∧
    startOf (tokensAt source token.stop) = position

/-- Whether a union that is a part of a union can stand right behind the token. -/
def Token.leadsUnion (token : Token) : Bool := token.isWord "readonly"

/-- Whether an intersection that is a part of an intersection can stand right behind
the token. -/
def Token.leadsIntersection (token : Token) : Bool :=
  token.isWord "readonly" || token.isSymbol "|"

section Leading

variable {source : Text} {token : Token} {tokens dropped kept : List Token} {type : TypeExpr}
  {leading : Token → Bool} {start position : Nat}

/-- A token leads those behind it. -/
theorem ledBy_of_contiguous (hleading : leading token = true) (hkept : kept ≠ [])
    (h : Contiguous source (token :: kept)) : LedBy source leading (startOf kept) := by
  obtain ⟨hstands, -, hbehind⟩ := h
  exact ⟨token, hleading, hstands, by rw [hbehind.resolve_left hkept]⟩

/-- Tokens behind others are contiguous as well. -/
theorem Contiguous.of_append (dropped : List Token) (h : Contiguous source (dropped ++ kept)) :
    Contiguous source kept :=
  have hholds : (contiguity source).Holds (dropped ++ kept) := h
  hholds.of_suffix (List.suffix_append _ _)

/-- The last of several operators leads what stands behind them. -/
theorem ledBy_operator (hoperator : token.isOperator = true)
    (hdropped : ∀ operator ∈ dropped, operator.isOperator = true) (hkept : kept ≠ [])
    (h : Contiguous source (token :: (dropped ++ kept))) :
    LedBy source Token.isOperator (startOf kept) := by
  induction dropped generalizing token with
  | nil => exact ledBy_of_contiguous hoperator hkept h
  | cons next rest ih =>
    obtain ⟨hnext, hrest⟩ := List.forall_mem_cons.1 hdropped
    exact ih hnext hrest (Contiguous.of_append [token] h)

/-- In front of a type that is read behind an operator stands an operator. -/
theorem StartsBehind.ledBy (h : StartsBehind tokens type) (hoperator : token.isOperator = true)
    (hcontiguous : Contiguous source (token :: tokens)) :
    LedBy source Token.isOperator type.span.start := by
  obtain ⟨dropped, kept, rfl, hdropped, hkept, hstart⟩ := h
  rw [hstart]
  exact ledBy_operator hoperator hdropped hkept hcontiguous

/-- A type starts with the first of the tokens it is read from, or an operator stands
in front of it. -/
theorem StartsBehind.first (h : StartsBehind tokens type) (hcontiguous : Contiguous source tokens) :
    type.span.start = startOf tokens ∨ LedBy source Token.isOperator type.span.start := by
  obtain ⟨dropped, kept, rfl, hdropped, hkept, hstart⟩ := h
  cases dropped with
  | nil => exact .inl hstart
  | cons operator rest =>
    obtain ⟨hoperator, hrest⟩ := List.forall_mem_cons.1 hdropped
    rw [hstart]
    exact .inr (ledBy_operator hoperator hrest hkept hcontiguous)

/-- Somewhere among the tokens one of these stands in front of the position. -/
def LeadsIn (leading : Token → Bool) (tokens : List Token) (position : Nat) : Prop :=
  ∃ dropped token kept, tokens = dropped ++ token :: kept ∧ leading token = true ∧ kept ≠ [] ∧
    startOf kept = position

/-- The first of the tokens starts at the position, or one of these stands in front of
it. -/
def StartsOrLed (leading : Token → Bool) (tokens : List Token) (position : Nat) : Prop :=
  (tokens ≠ [] ∧ startOf tokens = position) ∨ LeadsIn leading tokens position

/-- More tokens in front. -/
theorem LeadsIn.append (h : LeadsIn leading kept position) (dropped : List Token) :
    LeadsIn leading (dropped ++ kept) position := by
  obtain ⟨front, token, rest, rfl, hleading, hrest⟩ := h
  exact ⟨dropped ++ front, token, rest, (List.append_assoc _ _ _).symm, hleading, hrest⟩

/-- Tokens that are passed over stand in front. -/
theorem LeadsIn.of_dropWhile {p : Token → Bool}
    (h : LeadsIn leading (tokens.dropWhile p) position) : LeadsIn leading tokens position := by
  rw [← List.takeWhile_append_dropWhile (p := p) (l := tokens)]
  exact h.append _

/-- Behind a leading token. -/
theorem StartsOrLed.behind (h : StartsOrLed leading tokens position)
    (hleading : leading token = true) : LeadsIn leading (token :: tokens) position := by
  rcases h with ⟨hne, hstart⟩ | h
  · exact ⟨[], token, tokens, rfl, hleading, hne, hstart⟩
  · exact h.append [token]

/-- Behind leading tokens that are passed over. -/
theorem StartsOrLed.of_dropWhile {p : Token → Bool}
    (hp : ∀ token, p token = true → leading token = true)
    (h : StartsOrLed leading (tokens.dropWhile p) position) :
    StartsOrLed leading tokens position := by
  induction tokens with
  | nil => exact h
  | cons token rest ih =>
    rw [List.dropWhile_cons] at h
    split at h
    · next hpass => exact .inr ((ih h).behind (hp token hpass))
    · exact h

/-- Behind leading tokens that are passed over, the first of which there is. -/
theorem StartsOrLed.of_dropWhile_cons {p : Token → Bool}
    (hp : ∀ token, p token = true → leading token = true) (hpass : p token = true)
    (h : StartsOrLed leading ((token :: tokens).dropWhile p) position) :
    LeadsIn leading (token :: tokens) position := by
  rw [List.dropWhile_cons_of_pos hpass] at h
  exact (h.of_dropWhile hp).behind (hp token hpass)

/-- What leads in among contiguous tokens leads in the source. -/
theorem LeadsIn.ledBy (h : LeadsIn leading tokens position)
    (hcontiguous : Contiguous source tokens) : LedBy source leading position := by
  obtain ⟨dropped, token, kept, rfl, hleading, hkept, rfl⟩ := h
  exact ledBy_of_contiguous hleading hkept hcontiguous.of_append

end Leading

namespace Grammar

section NoList

variable {depth : Nat} {setting : Setting} {tokens rest : List Token} {type item : TypeExpr}

/-- Brackets behind a type make no list of it. -/
theorem isList_readBrackets {start : Nat} (hitem : item.isList = false)
    (h : readBrackets depth setting start item tokens = some (type, rest)) :
    type.isList = false := by
  induction depth generalizing item tokens with
  | zero =>
    rw [readBrackets] at h
    cases h
  | succ depth ih =>
    unfold readBrackets at h
    split at h
    · split at h
      · split at h
        · exact ih rfl h
        · simp only [Option.bind_eq_bind, Option.bind_eq_some_iff, Prod.exists] at h
          obtain ⟨_, _, -, _, _, -, h⟩ := h
          exact ih rfl h
      · cases h
        exact hitem
    · cases h
      exact hitem

/-- A name is no list. -/
theorem isList_readReference (h : readReference depth setting tokens = some (type, rest)) :
    type.isList = false := by
  cases depth with
  | zero =>
    rw [readReference] at h
    cases h
  | succ depth =>
    unfold readReference at h
    split at h
    · cases h
    split at h
    · obtain ⟨_, -, h⟩ := Option.map_eq_some_iff.1 h
      cases h
      rfl
    split at h
    · cases h
    cases depth with
    | zero =>
      rw [readNamed] at h
      cases h
    | succ depth =>
      unfold readNamed at h
      split at h
      · cases h
      split at h
      · dsimp only at h
        split at h
        · cases h
          rfl
        · split at h <;> cases h <;> rfl
      · cases h

/-- A type that no operator holds together is no list. -/
theorem isList_readPrimary (h : readPrimary depth setting tokens = some (type, rest)) :
    type.isList = false := by
  -- whatever is read before, the type is none
  have hbind {α : Type} {first : Option α} {found : α → TypeExpr × List Token}
      (hfound : ∀ read, (found read).1.isList = false)
      (h : (first >>= fun read => some (found read)) = some (type, rest)) :
      type.isList = false := by
    obtain ⟨read, -, h⟩ := Option.bind_eq_some_iff.1 h
    have hread := hfound read
    rwa [Option.some.inj h] at hread
  cases depth with
  | zero =>
    rw [readPrimary] at h
    cases h
  | succ depth =>
    unfold readPrimary at h
    split at h
    · cases h
    dsimp only at h
    split at h
    · cases h
      rfl
    · cases h
      rfl
    · split at h
      · obtain ⟨_, -, h⟩ := Option.bind_eq_some_iff.1 h
        exact hbind (fun _ => rfl) h
      split at h
      · exact hbind (fun _ => rfl) h
      split at h
      · obtain ⟨_, -, h⟩ := Option.bind_eq_some_iff.1 h
        split at h <;> cases h <;> rfl
      split at h
      · split at h
        · split at h
          · cases h
            rfl
          · cases h
        · cases h
      split at h
      · exact hbind (fun _ => rfl) h
      split at h
      · exact hbind (fun _ => rfl) h
      split at h
      · cases h
        rfl
      · cases h
    · split at h
      · cases h
        rfl
      split at h
      · cases h
        rfl
      split at h
      · cases h
        rfl
      split at h
      · exact hbind (fun _ => rfl) h
      split at h
      · exact hbind (fun _ => rfl) h
      split at h
      · exact hbind (fun _ => rfl) h
      split at h
      · exact hbind (fun _ => rfl) h
      · exact isList_readReference h
    · cases h

/-- A type with brackets behind it is no list. -/
theorem isList_readPostfixed (h : readPostfixed depth setting tokens = some (type, rest)) :
    type.isList = false := by
  cases depth with
  | zero =>
    rw [readPostfixed] at h
    cases h
  | succ depth =>
    rw [readPostfixed] at h
    obtain ⟨⟨primary, _⟩, hprimary, hbrackets⟩ := Option.bind_eq_some_iff.1 h
    exact isList_readBrackets (isList_readPrimary hprimary) hbrackets

end NoList

section Nested

variable {depth : Nat} {setting : Setting} {tokens rest : List Token} {type : TypeExpr}

/-- A list that is read as a prefixed type stands behind a word or sign. -/
theorem exists_of_readPrefixed (hlist : type.isList = true)
    (h : readPrefixed (depth + 1) setting tokens = some (type, rest)) :
    ∃ token more, tokens = token :: more ∧
      ((token.isWord "readonly" = true ∧ readType depth setting more = some (type, rest)) ∨
        (token.isSymbol "|" = true ∧ readIntersection depth setting
          (tokens.dropWhile fun token => token.isSymbol "|") = some (type, rest))) := by
  unfold readPrefixed at h
  split at h
  · cases h
  next token more =>
  refine ⟨token, more, rfl, ?_⟩
  have hpostfixed (h : readPostfixed depth setting (token :: more) = some (type, rest)) :
      (token.isWord "readonly" = true ∧ readType depth setting more = some (type, rest)) ∨
        (token.isSymbol "|" = true ∧ readIntersection depth setting
          ((token :: more).dropWhile fun token => token.isSymbol "|") = some (type, rest)) := by
    rw [isList_readPostfixed h] at hlist
    cases hlist
  split at h
  · split at h
    · cases h
      cases hlist
    · exact hpostfixed h
  split at h
  · obtain ⟨_, -, h⟩ := Option.bind_eq_some_iff.1 h
    cases h
    cases hlist
  split at h
  · next hword => exact .inl ⟨hword, h⟩
  split at h
  · split at h
    · split at h
      · cases h
      · split at h
        · obtain ⟨_, -, h⟩ := Option.bind_eq_some_iff.1 h
          cases h
          cases hlist
        · cases h
          cases hlist
    · cases h
  split at h
  · next hsign => exact .inr ⟨hsign, h⟩
  · exact hpostfixed h

/-- What is read as an intersection is its only part, or a list of several. -/
theorem exists_of_readIntersection
    (h : readIntersection (depth + 1) setting tokens = some (type, rest)) :
    (∃ left, readPrefixed depth setting (tokens.dropWhile fun token => token.isSymbol "&") =
      some (type, left)) ∨
    (type.isIntersection = true ∧ tokens ≠ [] ∧ startOf tokens = type.span.start) := by
  have hne := ((readersStart _).intersection h).ne_nil
  rw [readIntersection] at h
  simp only [Option.bind_eq_bind, Option.bind_eq_some_iff, Prod.exists, Option.some.injEq,
    Prod.mk.injEq] at h
  obtain ⟨first, left, hfirst, parts, stop, _, -, rfl, -⟩ := h
  cases parts with
  | nil => exact .inl ⟨left, hfirst⟩
  | cons => exact .inr ⟨rfl, hne, rfl⟩

/-- What is read as a union is its only part, or a list of several. -/
theorem exists_of_readUnion (h : readUnion (depth + 1) setting tokens = some (type, rest)) :
    (∃ left, readIntersection depth setting (tokens.dropWhile fun token => token.isSymbol "|") =
      some (type, left)) ∨
    (type.isUnion = true ∧ tokens ≠ [] ∧ startOf tokens = type.span.start) := by
  have hne := ((readersStart _).union h).ne_nil
  rw [readUnion] at h
  simp only [Option.bind_eq_bind, Option.bind_eq_some_iff, Prod.exists, Option.some.injEq,
    Prod.mk.injEq] at h
  obtain ⟨first, left, hfirst, parts, stop, _, -, rfl, -⟩ := h
  cases parts with
  | nil => exact .inl ⟨left, hfirst⟩
  | cons => exact .inr ⟨rfl, hne, rfl⟩

/-- A list that is read as a type is read as a union: it is no condition. -/
theorem exists_of_readType (hlist : type.isList = true)
    (h : readType (depth + 1) setting tokens = some (type, rest)) :
    ∃ left, readUnion depth setting tokens = some (type, left) := by
  rw [readType] at h
  obtain ⟨⟨left, behind⟩, hleft, h⟩ := Option.bind_eq_some_iff.1 h
  dsimp only at h
  split at h
  · split at h
    · simp only [Option.bind_eq_bind, Option.bind_eq_some_iff, Prod.exists, Option.some.injEq,
        Prod.mk.injEq] at h
      obtain ⟨_, _, -, _, _, -, _, _, -, _, _, -, _, _, -, rfl, -⟩ := h
      cases hlist
    · cases h
      exact ⟨_, hleft⟩
  · cases h
    exact ⟨_, hleft⟩

end Nested

/-- A list of one of the two kinds is a list. -/
theorem isList_of_isUnion {type : TypeExpr} (h : type.isUnion = true) : type.isList = true := by
  cases type <;> first | rfl | cases h

/-- A list of one of the two kinds is a list. -/
theorem isList_of_isIntersection {type : TypeExpr} (h : type.isIntersection = true) :
    type.isList = true := by
  cases type <;> first | rfl | cases h

/-- No union is an intersection. -/
theorem isUnion_of_isIntersection {type : TypeExpr} (h : type.isIntersection = true) :
    type.isUnion = false := by
  cases type <;> first | rfl | cases h

/-- Where unions start that are read at this depth. -/
structure UnionsLed (depth : Nat) : Prop where
  type : ∀ {setting tokens type rest}, readType depth setting tokens = some (type, rest) →
    type.isUnion = true → StartsOrLed Token.leadsUnion tokens type.span.start
  union : ∀ {setting tokens type rest}, readUnion depth setting tokens = some (type, rest) →
    type.isUnion = true → StartsOrLed Token.leadsUnion tokens type.span.start
  intersection : ∀ {setting tokens type rest},
    readIntersection depth setting tokens = some (type, rest) → type.isUnion = true →
      LeadsIn Token.leadsUnion tokens type.span.start
  prefixed : ∀ {setting tokens type rest}, readPrefixed depth setting tokens = some (type, rest) →
    type.isUnion = true → LeadsIn Token.leadsUnion tokens type.span.start

/-- A union starts with the first token, or the word `readonly` stands in front of
it, as it does of every union that is read as a part of a list. -/
theorem unionsLed (depth : Nat) : UnionsLed depth := by
  induction depth with
  | zero =>
    -- nothing is read at depth zero
    constructor <;> simp [readType, readUnion, readIntersection, readPrefixed]
  | succ depth h =>
    constructor
    case type =>
      intro setting tokens type rest hread hunion
      obtain ⟨_, hread⟩ := exists_of_readType (isList_of_isUnion hunion) hread
      exact h.union hread hunion
    case union =>
      intro setting tokens type rest hread hunion
      rcases exists_of_readUnion hread with ⟨_, hread⟩ | ⟨-, hstart⟩
      · exact .inr (h.intersection hread hunion).of_dropWhile
      · exact .inl hstart
    case intersection =>
      intro setting tokens type rest hread hunion
      rcases exists_of_readIntersection hread with ⟨_, hread⟩ | ⟨hkind, -⟩
      · exact (h.prefixed hread hunion).of_dropWhile
      · rw [isUnion_of_isIntersection hkind] at hunion
        cases hunion
    case prefixed =>
      intro setting tokens type rest hread hunion
      obtain ⟨token, more, rfl, ⟨hword, hread⟩ | ⟨-, hread⟩⟩ :=
        exists_of_readPrefixed (isList_of_isUnion hunion) hread
      · exact (h.type hread hunion).behind hword
      · exact (h.intersection hread hunion).of_dropWhile

/-- Where intersections start that are read at this depth. -/
structure IntersectionsLed (depth : Nat) : Prop where
  type : ∀ {setting tokens type rest}, readType depth setting tokens = some (type, rest) →
    type.isIntersection = true → StartsOrLed Token.leadsIntersection tokens type.span.start
  union : ∀ {setting tokens type rest}, readUnion depth setting tokens = some (type, rest) →
    type.isIntersection = true → StartsOrLed Token.leadsIntersection tokens type.span.start
  intersection : ∀ {setting tokens type rest},
    readIntersection depth setting tokens = some (type, rest) → type.isIntersection = true →
      StartsOrLed Token.leadsIntersection tokens type.span.start
  prefixed : ∀ {setting tokens type rest}, readPrefixed depth setting tokens = some (type, rest) →
    type.isIntersection = true → LeadsIn Token.leadsIntersection tokens type.span.start

/-- An intersection starts with the first token, or the word `readonly` or a sign of a
union stands in front of it, as it does of every intersection that is read as a part of
another one. -/
theorem intersectionsLed (depth : Nat) : IntersectionsLed depth := by
  have hsign (token : Token) (h : token.isSymbol "|" = true) :
      token.leadsIntersection = true := by simp [Token.leadsIntersection, h]
  induction depth with
  | zero =>
    -- nothing is read at depth zero
    constructor <;> simp [readType, readUnion, readIntersection, readPrefixed]
  | succ depth h =>
    constructor
    case type =>
      intro setting tokens type rest hread hkind
      obtain ⟨_, hread⟩ := exists_of_readType (isList_of_isIntersection hkind) hread
      exact h.union hread hkind
    case union =>
      intro setting tokens type rest hread hkind
      rcases exists_of_readUnion hread with ⟨_, hread⟩ | ⟨hunion, -⟩
      · exact (h.intersection hread hkind).of_dropWhile hsign
      · rw [isUnion_of_isIntersection hkind] at hunion
        cases hunion
    case intersection =>
      intro setting tokens type rest hread hkind
      rcases exists_of_readIntersection hread with ⟨_, hread⟩ | ⟨-, hstart⟩
      · exact .inr (h.prefixed hread hkind).of_dropWhile
      · exact .inl hstart
    case prefixed =>
      intro setting tokens type rest hread hkind
      obtain ⟨token, more, rfl, ⟨hword, hread⟩ | ⟨hpass, hread⟩⟩ :=
        exists_of_readPrefixed (isList_of_isIntersection hkind) hread
      · exact (h.type hread hkind).behind (by simp [Token.leadsIntersection, hword])
      · exact (h.intersection hread hkind).of_dropWhile_cons hsign hpass

section Signs

variable {depth : Nat} {setting : Setting} {sign : Token} {tokens rest left : List Token}
  {type : TypeExpr} {parts : List TypeExpr} {stop last : Nat}

/-- What starts with a sign: a list of several parts, or a condition on one. -/
def StartsWithSign (sign : Token) (type : TypeExpr) : Prop :=
  type.span.start = sign.start ∧ (type.isList = true ∨ ∃ span, type = .unsupported span)

/-- A sign of a union in front of its only part changes nothing. -/
theorem readUnion_of_bar (hsign : sign.isSymbol "|" = true)
    (h : readUnion depth setting (sign :: tokens) = some (type, rest)) :
    StartsWithSign sign type ∨ readUnion depth setting tokens = some (type, rest) := by
  cases depth with
  | zero =>
    rw [readUnion] at h
    cases h
  | succ depth =>
    have hdrop : ((sign :: tokens).dropWhile fun token => token.isSymbol "|") =
        tokens.dropWhile fun token => token.isSymbol "|" := List.dropWhile_cons_of_pos hsign
    rw [readUnion, hdrop] at h
    obtain ⟨⟨first, behind⟩, hfirst, h⟩ := Option.bind_eq_some_iff.1 h
    obtain ⟨⟨parts, last, _⟩, hparts, h⟩ := Option.bind_eq_some_iff.1 h
    cases h
    cases parts with
    | nil =>
      rw [readUnion]
      exact .inr (Option.bind_eq_some_iff.2
        ⟨_, hfirst, Option.bind_eq_some_iff.2 ⟨_, hparts, rfl⟩⟩)
    | cons part more => exact .inl ⟨rfl, .inl rfl⟩

/-- A sign of an intersection in front of its only part changes nothing. -/
theorem readIntersection_of_ampersand (hsign : sign.isSymbol "&" = true)
    (h : readIntersection depth setting (sign :: tokens) = some (type, rest)) :
    StartsWithSign sign type ∨ readIntersection depth setting tokens = some (type, rest) := by
  cases depth with
  | zero =>
    rw [readIntersection] at h
    cases h
  | succ depth =>
    have hdrop : ((sign :: tokens).dropWhile fun token => token.isSymbol "&") =
        tokens.dropWhile fun token => token.isSymbol "&" := List.dropWhile_cons_of_pos hsign
    rw [readIntersection, hdrop] at h
    obtain ⟨⟨first, behind⟩, hfirst, h⟩ := Option.bind_eq_some_iff.1 h
    obtain ⟨⟨parts, last, _⟩, hparts, h⟩ := Option.bind_eq_some_iff.1 h
    cases h
    cases parts with
    | nil =>
      rw [readIntersection]
      exact .inr (Option.bind_eq_some_iff.2
        ⟨_, hfirst, Option.bind_eq_some_iff.2 ⟨_, hparts, rfl⟩⟩)
    | cons part more => exact .inl ⟨rfl, .inl rfl⟩

/-- Without further parts there is no sign behind the tokens left. -/
theorem eq_of_readUnionParts
    (h : readUnionParts depth setting stop tokens = some ([], last, rest)) :
    takeBetween "|" setting tokens = none ∧ rest = tokens := by
  cases depth with
  | zero =>
    rw [readUnionParts] at h
    cases h
  | succ depth =>
    rw [readUnionParts] at h
    split at h
    · obtain ⟨_, -, h⟩ := Option.bind_eq_some_iff.1 h
      obtain ⟨_, -, h⟩ := Option.bind_eq_some_iff.1 h
      cases h
    · next hnone =>
      cases h
      exact ⟨hnone, rfl⟩

/-- An intersection with no sign of a union behind it is a union of one part. -/
theorem readUnion_of_readIntersection
    (h : readIntersection depth setting (tokens.dropWhile fun token => token.isSymbol "|") =
      some (type, rest)) (hnone : takeBetween "|" setting rest = none) :
    readUnion (depth + 1) setting tokens = some (type, rest) := by
  cases depth with
  | zero =>
    rw [readIntersection] at h
    cases h
  | succ depth =>
    have hparts : readUnionParts (depth + 1) setting type.span.stop rest =
        some ([], type.span.stop, rest) := by
      rw [readUnionParts, hnone]
    rw [readUnion]
    exact Option.bind_eq_some_iff.2 ⟨_, h, Option.bind_eq_some_iff.2 ⟨_, hparts, rfl⟩⟩

/-- A sign of a union in front of a part of an intersection is passed over. -/
theorem readIntersection_of_bar (hsign : sign.isSymbol "|" = true)
    (h : readIntersection depth setting (sign :: tokens) = some (type, rest)) :
    ∃ depth, readIntersection depth setting
      ((sign :: tokens).dropWhile fun token => token.isSymbol "|") = some (type, rest) := by
  have hother {symbol : String} (hne : "|" ≠ symbol) : sign.isSymbol symbol = false :=
    Token.isSymbol_other hsign hne
  have hword (word : String) : sign.isWord word = false :=
    Token.isWord_of_kind (by rw [Token.kind_of_isSymbol hsign]; decide) word
  obtain ⟨depth, rfl⟩ : ∃ less, depth = less + 1 := Nat.exists_eq_succ_of_ne_zero (by
    rintro rfl
    rw [readIntersection] at h
    cases h)
  have hdrop : ((sign :: tokens).dropWhile fun token => token.isSymbol "&") = sign :: tokens :=
    List.dropWhile_cons_of_neg (by rw [hother (by decide)]; decide)
  rw [readIntersection, hdrop] at h
  obtain ⟨⟨first, behind⟩, hfirst, h⟩ := Option.bind_eq_some_iff.1 h
  obtain ⟨⟨parts, last, _⟩, hparts, h⟩ := Option.bind_eq_some_iff.1 h
  cases h
  obtain ⟨depth, rfl⟩ : ∃ less, depth = less + 1 := Nat.exists_eq_succ_of_ne_zero (by
    rintro rfl
    rw [readPrefixed] at hfirst
    cases hfirst)
  unfold readPrefixed at hfirst
  simp only [hother (show "|" ≠ "(" by decide), hother (show "|" ≠ "<" by decide), hword, hsign,
    Bool.or_false, Bool.false_eq_true, if_false, if_true] at hfirst
  -- the inner intersection has taken all parts
  cases readIntersectionParts_eq (exhausted_readIntersection hfirst) hparts
  exact ⟨depth, hfirst⟩

/-- An intersection with no sign of a union behind it is a union of one part. -/
theorem exists_readUnion (h : readIntersection depth setting tokens = some (type, rest))
    (hnone : takeBetween "|" setting rest = none) :
    ∃ depth, readUnion depth setting tokens = some (type, rest) := by
  have hplain (hdrop : (tokens.dropWhile fun token => token.isSymbol "|") = tokens) :
      ∃ depth, readUnion depth setting tokens = some (type, rest) :=
    ⟨depth + 1, readUnion_of_readIntersection (hdrop.symm ▸ h) hnone⟩
  cases tokens with
  | nil => exact hplain rfl
  | cons token more =>
    by_cases hbar : token.isSymbol "|" = true
    · obtain ⟨depth, hread⟩ := readIntersection_of_bar hbar h
      exact ⟨depth + 1, readUnion_of_readIntersection hread hnone⟩
    · exact hplain (List.dropWhile_cons_of_neg hbar)

/-- A sign of an intersection in front of a union of one part changes nothing. -/
theorem readUnion_of_ampersand (hsign : sign.isSymbol "&" = true)
    (h : readUnion depth setting (sign :: tokens) = some (type, rest)) :
    StartsWithSign sign type ∨ ∃ depth, readUnion depth setting tokens = some (type, rest) := by
  cases depth with
  | zero =>
    rw [readUnion] at h
    cases h
  | succ depth =>
    have hdrop : ((sign :: tokens).dropWhile fun token => token.isSymbol "|") = sign :: tokens :=
      List.dropWhile_cons_of_neg (by rw [Token.isSymbol_other hsign (by decide)]; decide)
    rw [readUnion, hdrop] at h
    obtain ⟨⟨first, behind⟩, hfirst, h⟩ := Option.bind_eq_some_iff.1 h
    obtain ⟨⟨parts, last, _⟩, hparts, h⟩ := Option.bind_eq_some_iff.1 h
    cases h
    cases parts with
    | nil =>
      obtain ⟨hnone, rfl⟩ := eq_of_readUnionParts hparts
      exact (readIntersection_of_ampersand hsign hfirst).imp id fun hread =>
        exists_readUnion hread hnone
    | cons part more => exact .inl ⟨rfl, .inl rfl⟩

/-- A sign in front of a type is the start of a list of several parts or of a condition,
or the type is what is read behind the sign. -/
theorem readType_of_sign (hsign : (sign.isSymbol "|" || sign.isSymbol "&") = true)
    (h : readType depth setting (sign :: tokens) = some (type, rest)) :
    StartsWithSign sign type ∨ ∃ depth, readType depth setting tokens = some (type, rest) := by
  cases depth with
  | zero =>
    rw [readType] at h
    cases h
  | succ depth =>
    rw [readType] at h
    obtain ⟨⟨left, behind⟩, hleft, h⟩ := Option.bind_eq_some_iff.1 h
    have hunion : StartsWithSign sign left ∨
        ∃ depth, readUnion depth setting tokens = some (left, behind) := by
      rcases Bool.or_eq_true_iff.1 hsign with hsign | hsign
      · exact (readUnion_of_bar hsign hleft).imp id fun hread => ⟨_, hread⟩
      · exact readUnion_of_ampersand hsign hleft
    dsimp only at h
    -- without a condition the type is the union
    have hplain (hcondition : ∀ token more, behind = token :: more →
        ¬(token.isWord "extends" && !setting.breaks token) = true) :
        StartsWithSign sign left ∨
          ∃ depth, readType depth setting tokens = some (left, behind) := by
      refine hunion.imp id ?_
      rintro ⟨depth, hread⟩
      refine ⟨depth + 1, ?_⟩
      rw [readType]
      refine Option.bind_eq_some_iff.2 ⟨_, hread, ?_⟩
      dsimp only
      split
      · exact if_neg (hcondition _ _ rfl)
      · rfl
    split at h
    · next token more =>
      split at h
      · simp only [Option.bind_eq_bind, Option.bind_eq_some_iff, Prod.exists, Option.some.injEq,
          Prod.mk.injEq] at h
        obtain ⟨_, _, -, _, _, -, _, _, -, _, _, -, _, _, -, rfl, -⟩ := h
        exact .inl ⟨rfl, .inr ⟨_, rfl⟩⟩
      · next hcondition =>
        cases h
        refine hplain ?_
        rintro _ _ ⟨⟩
        exact hcondition
    · cases h
      exact hplain fun _ _ hnil => (List.cons_ne_nil _ _ hnil.symm).elim

end Signs

end Grammar

end InterfaceSchema
