import InterfaceSchema.Proofs.Syntax.Written

/-!
# Operators in front of types

The span of a type starts with its first token, with three exceptions. A sign in
front of the only part of a union or intersection is left out, and so is the word
in front of a read-only type: such a type starts where the type behind the sign or
word does. As a read-only type reaches as far as it can, its word is always left
out.
-/

namespace InterfaceSchema

open Grammar

/-- Whether the token stands in front of a type that is read without it. -/
def Token.isOperator (token : Token) : Bool :=
  token.isSymbol "|" || token.isSymbol "&" || token.isWord "readonly"

/-- The span of the type starts with the first of the tokens. -/
def StartsWith (tokens : List Token) (type : TypeExpr) : Prop :=
  tokens ≠ [] ∧ type.span.start = startOf tokens

/-- The span of the type starts with the first of the tokens behind some
operators. -/
def StartsBehind (tokens : List Token) (type : TypeExpr) : Prop :=
  ∃ dropped kept, tokens = dropped ++ kept ∧ (∀ token ∈ dropped, token.isOperator = true) ∧
    StartsWith kept type

namespace StartsBehind

variable {tokens : List Token} {type : TypeExpr}

/-- A type that starts with the first of the tokens. -/
theorem of_startsWith (h : StartsWith tokens type) : StartsBehind tokens type :=
  ⟨[], tokens, rfl, List.forall_mem_nil _, h⟩

/-- One operator more. -/
theorem cons {token : Token} (htoken : token.isOperator = true) (h : StartsBehind tokens type) :
    StartsBehind (token :: tokens) type := by
  obtain ⟨dropped, kept, rfl, hdropped, hkept⟩ := h
  exact ⟨token :: dropped, kept, rfl, List.forall_mem_cons.2 ⟨htoken, hdropped⟩, hkept⟩

/-- There are tokens. -/
theorem ne_nil (h : StartsBehind tokens type) : tokens ≠ [] := by
  obtain ⟨dropped, kept, rfl, -, hkept, -⟩ := h
  exact List.append_ne_nil_of_right_ne_nil _ hkept

/-- The same operator several times. -/
theorem of_dropWhile {p : Token → Bool} (hp : ∀ token, p token = true → token.isOperator = true)
    (h : StartsBehind (tokens.dropWhile p) type) : StartsBehind tokens type := by
  induction tokens with
  | nil => exact h
  | cons token rest ih =>
    rw [List.dropWhile_cons] at h
    split at h
    · next hstart => exact (ih h).cons (hp token hstart)
    · exact h

/-- The only part of a list stands for itself, and several parts start with the
first of the tokens. -/
theorem listOf {wrap : List TypeExpr → Span → TypeExpr} {parts : List TypeExpr} {stop : Nat}
    (hwrap : ∀ parts span, (wrap parts span).span = span) (hne : tokens ≠ [])
    (h : StartsBehind tokens type) :
    StartsBehind tokens (Grammar.listOf wrap ⟨startOf tokens, stop⟩ (type :: parts)) := by
  cases parts with
  | nil => exact h
  | cons part rest => exact of_startsWith ⟨hne, congrArg Span.start (hwrap _ _)⟩

end StartsBehind

namespace Grammar

/-- Where the types that readers of this depth read start. -/
structure ReadersStart (depth : Nat) : Prop where
  type : ∀ {setting tokens type rest}, readType depth setting tokens = some (type, rest) →
    StartsBehind tokens type
  union : ∀ {setting tokens type rest}, readUnion depth setting tokens = some (type, rest) →
    StartsBehind tokens type
  intersection : ∀ {setting tokens type rest},
    readIntersection depth setting tokens = some (type, rest) → StartsBehind tokens type
  prefixed : ∀ {setting tokens type rest}, readPrefixed depth setting tokens = some (type, rest) →
    StartsBehind tokens type
  postfixed : ∀ {setting tokens type rest},
    readPostfixed depth setting tokens = some (type, rest) → StartsWith tokens type
  brackets : ∀ {setting start item tokens type rest},
    readBrackets depth setting start item tokens = some (type, rest) → item.span.start = start →
      type.span.start = start
  primary : ∀ {setting tokens type rest}, readPrimary depth setting tokens = some (type, rest) →
    StartsWith tokens type
  reference : ∀ {setting tokens type rest},
    readReference depth setting tokens = some (type, rest) → StartsWith tokens type
  named : ∀ {setting tokens type rest}, readNamed depth setting tokens = some (type, rest) →
    StartsWith tokens type

namespace ReadersStart

variable {depth : Nat} {setting : Setting} {tokens rest : List Token} {type : TypeExpr}
  (h : ReadersStart depth)

include h

/-- A type starts behind operators. -/
theorem readType (hread : Grammar.readType (depth + 1) setting tokens = some (type, rest)) :
    StartsBehind tokens type := by
  rw [Grammar.readType] at hread
  obtain ⟨⟨left, behind⟩, hleft, hread⟩ := Option.bind_eq_some_iff.1 hread
  have hstart := h.union hleft
  dsimp only at hread
  split at hread
  · split at hread
    · simp only [Option.bind_eq_bind, Option.bind_eq_some_iff, Prod.exists, Option.some.injEq,
        Prod.mk.injEq] at hread
      obtain ⟨_, _, -, _, _, -, _, _, -, _, _, -, _, _, -, rfl, -⟩ := hread
      exact .of_startsWith ⟨hstart.ne_nil, rfl⟩
    · cases hread
      exact hstart
  · cases hread
    exact hstart

/-- A union starts behind operators. -/
theorem readUnion (hread : Grammar.readUnion (depth + 1) setting tokens = some (type, rest)) :
    StartsBehind tokens type := by
  rw [Grammar.readUnion] at hread
  simp only [Option.bind_eq_bind, Option.bind_eq_some_iff, Prod.exists, Option.some.injEq,
    Prod.mk.injEq] at hread
  obtain ⟨first, _, hfirst, _, _, _, -, rfl, -⟩ := hread
  have hstart := (h.intersection hfirst).of_dropWhile fun token hsymbol => by
    simp [Token.isOperator, hsymbol]
  exact hstart.listOf (fun _ _ => rfl) hstart.ne_nil

/-- An intersection starts behind operators. -/
theorem readIntersection
    (hread : Grammar.readIntersection (depth + 1) setting tokens = some (type, rest)) :
    StartsBehind tokens type := by
  rw [Grammar.readIntersection] at hread
  simp only [Option.bind_eq_bind, Option.bind_eq_some_iff, Prod.exists, Option.some.injEq,
    Prod.mk.injEq] at hread
  obtain ⟨first, _, hfirst, _, _, _, -, rfl, -⟩ := hread
  have hstart := (h.prefixed hfirst).of_dropWhile fun token hsymbol => by
    simp [Token.isOperator, hsymbol]
  exact hstart.listOf (fun _ _ => rfl) hstart.ne_nil

/-- A prefixed type starts behind operators. -/
theorem readPrefixed (hread : Grammar.readPrefixed (depth + 1) setting tokens = some (type, rest)) :
    StartsBehind tokens type := by
  unfold Grammar.readPrefixed at hread
  split at hread
  · cases hread
  next token more =>
  have htoken {span : Span} (hspan : span.start = token.start) :
      StartsBehind (token :: more) (.unsupported span) :=
    .of_startsWith ⟨List.cons_ne_nil _ _, hspan⟩
  split at hread
  · split at hread
    · cases hread
      exact htoken rfl
    · exact .of_startsWith (h.postfixed hread)
  split at hread
  · obtain ⟨_, -, hread⟩ := Option.bind_eq_some_iff.1 hread
    cases hread
    exact htoken rfl
  split at hread
  · next hword => exact (h.type hread).cons (by simp [Token.isOperator, hword])
  split at hread
  · split at hread
    · split at hread
      · cases hread
      · split at hread
        · obtain ⟨_, -, hread⟩ := Option.bind_eq_some_iff.1 hread
          cases hread
          exact htoken rfl
        · cases hread
          exact htoken rfl
    · cases hread
  split at hread
  · exact (h.intersection hread).of_dropWhile fun token hsymbol => by
      simp [Token.isOperator, hsymbol]
  · exact .of_startsWith (h.postfixed hread)

/-- A type with brackets behind it starts with the first token. -/
theorem readPostfixed
    (hread : Grammar.readPostfixed (depth + 1) setting tokens = some (type, rest)) :
    StartsWith tokens type := by
  rw [Grammar.readPostfixed] at hread
  obtain ⟨⟨primary, _⟩, hprimary, hbrackets⟩ := Option.bind_eq_some_iff.1 hread
  obtain ⟨hne, hstart⟩ := h.primary hprimary
  exact ⟨hne, h.brackets hbrackets hstart⟩

/-- Brackets leave a type where it starts. -/
theorem readBrackets {start : Nat} {item : TypeExpr}
    (hread : Grammar.readBrackets (depth + 1) setting start item tokens = some (type, rest))
    (hstart : item.span.start = start) : type.span.start = start := by
  unfold Grammar.readBrackets at hread
  split at hread
  · split at hread
    · split at hread
      · exact h.brackets hread rfl
      · simp only [Option.bind_eq_bind, Option.bind_eq_some_iff, Prod.exists] at hread
        obtain ⟨_, _, -, _, _, -, hread⟩ := hread
        exact h.brackets hread rfl
    · cases hread
      exact hstart
  · cases hread
    exact hstart

/-- A type that no operator holds together starts with the first token. -/
theorem readPrimary (hread : Grammar.readPrimary (depth + 1) setting tokens = some (type, rest)) :
    StartsWith tokens type := by
  unfold Grammar.readPrimary at hread
  split at hread
  · cases hread
  next token more =>
  have htoken {found : TypeExpr} (hfound : found.span.start = token.start) :
      StartsWith (token :: more) found := ⟨List.cons_ne_nil _ _, hfound⟩
  -- whatever is read before, the span starts with the token
  have hbind {α : Type} {first : Option α} {found : α → TypeExpr × List Token}
      (hfound : ∀ read, (found read).1.span.start = token.start)
      (hread : (first >>= fun read => some (found read)) = some (type, rest)) :
      StartsWith (token :: more) type := by
    obtain ⟨read, -, hread⟩ := Option.bind_eq_some_iff.1 hread
    have hstart := hfound read
    rw [Option.some.inj hread] at hstart
    exact htoken hstart
  dsimp only at hread
  split at hread
  · cases hread
    exact htoken rfl
  · cases hread
    exact htoken rfl
  · split at hread
    · obtain ⟨_, -, hread⟩ := Option.bind_eq_some_iff.1 hread
      exact hbind (fun _ => rfl) hread
    split at hread
    · exact hbind (fun _ => rfl) hread
    split at hread
    · obtain ⟨_, -, hread⟩ := Option.bind_eq_some_iff.1 hread
      split at hread <;> cases hread <;> exact htoken rfl
    split at hread
    · split at hread
      · split at hread
        · cases hread
          exact htoken rfl
        · cases hread
      · cases hread
    split at hread
    · exact hbind (fun _ => rfl) hread
    split at hread
    · exact hbind (fun _ => rfl) hread
    split at hread
    · cases hread
      exact htoken rfl
    · cases hread
  · split at hread
    · cases hread
      exact htoken rfl
    split at hread
    · cases hread
      exact htoken rfl
    split at hread
    · cases hread
      exact htoken rfl
    split at hread
    · exact hbind (fun _ => rfl) hread
    split at hread
    · exact hbind (fun _ => rfl) hread
    split at hread
    · exact hbind (fun _ => rfl) hread
    split at hread
    · exact hbind (fun _ => rfl) hread
    · exact h.reference hread
  · cases hread

/-- A named type starts with the first token. -/
theorem readReference
    (hread : Grammar.readReference (depth + 1) setting tokens = some (type, rest)) :
    StartsWith tokens type := by
  unfold Grammar.readReference at hread
  split at hread
  · cases hread
  split at hread
  · obtain ⟨_, -, hread⟩ := Option.map_eq_some_iff.1 hread
    cases hread
    exact ⟨List.cons_ne_nil _ _, rfl⟩
  split at hread
  · cases hread
  · exact h.named hread

omit h in
/-- A name with type arguments starts with the first token. -/
theorem readNamed (hread : Grammar.readNamed (depth + 1) setting tokens = some (type, rest)) :
    StartsWith tokens type := by
  unfold Grammar.readNamed at hread
  split at hread
  · cases hread
  split at hread
  · dsimp only at hread
    split at hread
    · cases hread
      exact ⟨List.cons_ne_nil _ _, rfl⟩
    · split at hread <;> cases hread <;> exact ⟨List.cons_ne_nil _ _, rfl⟩
  · cases hread

end ReadersStart

/-- Where types start, whatever the depth. -/
theorem readersStart (depth : Nat) : ReadersStart depth := by
  induction depth with
  | zero =>
    -- nothing is read at depth zero
    constructor <;>
      simp [readType, readUnion, readIntersection, readPrefixed, readPostfixed, readBrackets,
        readPrimary, readReference, readNamed]
  | succ depth h =>
    exact
      { type := h.readType
        union := h.readUnion
        intersection := h.readIntersection
        prefixed := h.readPrefixed
        postfixed := h.readPostfixed
        brackets := h.readBrackets
        primary := h.readPrimary
        reference := h.readReference
        named := ReadersStart.readNamed }

section Exhausted

variable {depth : Nat} {setting : Setting} {tokens rest : List Token} {type : TypeExpr}

/-- No type goes on with the first of the tokens. -/
structure Exhausted (setting : Setting) (tokens : List Token) : Prop where
  intersection : takeBetween "&" setting tokens = none
  union : takeBetween "|" setting tokens = none
  condition : ∀ token more, tokens = token :: more →
    ¬(token.isWord "extends" && !setting.breaks token) = true

/-- Behind the further parts of an intersection there is no other one. -/
theorem exhausted_readIntersectionParts {stop : Nat} {found : List TypeExpr × Nat × List Token}
    (h : readIntersectionParts depth setting stop tokens = some found) :
    takeBetween "&" setting found.2.2 = none := by
  induction depth generalizing tokens stop found with
  | zero =>
    rw [readIntersectionParts] at h
    cases h
  | succ depth ih =>
    rw [readIntersectionParts] at h
    split at h
    · simp only [Option.bind_eq_bind, Option.bind_eq_some_iff, Option.some.injEq] at h
      obtain ⟨_, -, _, hparts, rfl⟩ := h
      have hexhausted := ih hparts
      exact hexhausted
    · next hnone =>
      cases h
      exact hnone

/-- Behind an intersection there is no other part. -/
theorem exhausted_readIntersection {found : TypeExpr × List Token}
    (h : readIntersection depth setting tokens = some found) :
    takeBetween "&" setting found.2 = none := by
  cases depth with
  | zero =>
    rw [readIntersection] at h
    cases h
  | succ depth =>
    rw [readIntersection] at h
    simp only [Option.bind_eq_bind, Option.bind_eq_some_iff, Option.some.injEq] at h
    obtain ⟨_, -, _, hparts, rfl⟩ := h
    exact exhausted_readIntersectionParts hparts

/-- Behind the further parts of a union there is no other one. -/
theorem exhausted_readUnionParts {stop : Nat} {found : List TypeExpr × Nat × List Token}
    (htokens : takeBetween "&" setting tokens = none)
    (h : readUnionParts depth setting stop tokens = some found) :
    takeBetween "&" setting found.2.2 = none ∧ takeBetween "|" setting found.2.2 = none := by
  induction depth generalizing tokens stop found with
  | zero =>
    rw [readUnionParts] at h
    cases h
  | succ depth ih =>
    rw [readUnionParts] at h
    split at h
    · simp only [Option.bind_eq_bind, Option.bind_eq_some_iff, Option.some.injEq] at h
      obtain ⟨_, hpart, _, hparts, rfl⟩ := h
      have hexhausted := ih (exhausted_readIntersection hpart) hparts
      exact hexhausted
    · next hnone =>
      cases h
      exact ⟨htokens, hnone⟩

/-- A type reaches as far as it can. -/
theorem exhausted_readType (h : readType depth setting tokens = some (type, rest)) :
    Exhausted setting rest := by
  induction depth generalizing tokens type rest with
  | zero =>
    rw [readType] at h
    cases h
  | succ depth ih =>
    rw [readType] at h
    obtain ⟨⟨left, behind⟩, hleft, h⟩ := Option.bind_eq_some_iff.1 h
    dsimp only at h
    have hbehind :
        takeBetween "&" setting behind = none ∧ takeBetween "|" setting behind = none := by
      cases depth with
      | zero =>
        rw [readUnion] at hleft
        cases hleft
      | succ depth =>
        rw [readUnion] at hleft
        simp only [Option.bind_eq_bind, Option.bind_eq_some_iff, Option.some.injEq,
          Prod.mk.injEq] at hleft
        obtain ⟨_, hfirst, _, hparts, -, rfl⟩ := hleft
        exact exhausted_readUnionParts (exhausted_readIntersection hfirst) hparts
    split at h
    · next token more =>
      split at h
      · simp only [Option.bind_eq_bind, Option.bind_eq_some_iff, Prod.exists, Option.some.injEq,
          Prod.mk.injEq] at h
        obtain ⟨_, _, -, _, _, -, _, _, -, _, _, -, _, _, hlast, -, rfl⟩ := h
        exact ih hlast
      · next hcondition =>
        cases h
        refine ⟨hbehind.1, hbehind.2, ?_⟩
        rintro _ _ ⟨⟩
        exact hcondition
    · cases h
      exact ⟨hbehind.1, hbehind.2, fun _ _ hnil => (List.cons_ne_nil _ _ hnil.symm).elim⟩

/-- Where no part follows, an intersection has no further parts. -/
theorem readIntersectionParts_eq {stop : Nat} {found : List TypeExpr × Nat × List Token}
    (htokens : takeBetween "&" setting tokens = none)
    (h : readIntersectionParts depth setting stop tokens = some found) :
    found = ([], stop, tokens) := by
  cases depth with
  | zero =>
    rw [readIntersectionParts] at h
    cases h
  | succ depth =>
    rw [readIntersectionParts, htokens] at h
    exact (Option.some.inj h).symm

/-- Where no part follows, a union has no further parts. -/
theorem readUnionParts_eq {stop : Nat} {found : List TypeExpr × Nat × List Token}
    (htokens : takeBetween "|" setting tokens = none)
    (h : readUnionParts depth setting stop tokens = some found) : found = ([], stop, tokens) := by
  cases depth with
  | zero =>
    rw [readUnionParts] at h
    cases h
  | succ depth =>
    rw [readUnionParts, htokens] at h
    exact (Option.some.inj h).symm

variable {word : Token} {found : TypeExpr × List Token}

/-- A read-only type is the type behind the word. -/
theorem readPrefixed_of_readonly (hword : word.isWord "readonly" = true)
    (h : readPrefixed depth setting (word :: tokens) = some found) :
    ∃ depth, readType depth setting tokens = some found := by
  have hnew : word.isWord "new" = false := Token.isWord_other hword (by decide)
  have habstract : word.isWord "abstract" = false := Token.isWord_other hword (by decide)
  cases depth with
  | zero =>
    rw [readPrefixed] at h
    cases h
  | succ depth =>
    unfold readPrefixed at h
    simp only [Token.isSymbol_of_isWord hword, hnew, habstract, hword, Bool.or_false,
      Bool.false_eq_true, if_false, if_true] at h
    exact ⟨depth, h⟩

/-- No operand is added to a read-only type, which reaches as far as it can. -/
theorem readIntersection_of_readonly (hword : word.isWord "readonly" = true)
    (h : readIntersection depth setting (word :: tokens) = some found) :
    ∃ depth, readType depth setting tokens = some found := by
  cases depth with
  | zero =>
    rw [readIntersection] at h
    cases h
  | succ depth =>
    rw [readIntersection] at h
    simp only [Option.bind_eq_bind, Option.bind_eq_some_iff, Option.some.injEq] at h
    obtain ⟨first, hfirst, _, hparts, rfl⟩ := h
    rw [List.dropWhile_cons_of_neg (by simp [Token.isSymbol_of_isWord hword])] at hfirst
    obtain ⟨_, hread⟩ := readPrefixed_of_readonly hword hfirst
    cases readIntersectionParts_eq (exhausted_readType hread).intersection hparts
    exact ⟨_, hread⟩

/-- No alternative is added to a read-only type. -/
theorem readUnion_of_readonly (hword : word.isWord "readonly" = true)
    (h : readUnion depth setting (word :: tokens) = some found) :
    ∃ depth, readType depth setting tokens = some found := by
  cases depth with
  | zero =>
    rw [readUnion] at h
    cases h
  | succ depth =>
    rw [readUnion] at h
    simp only [Option.bind_eq_bind, Option.bind_eq_some_iff, Option.some.injEq] at h
    obtain ⟨first, hfirst, _, hparts, rfl⟩ := h
    rw [List.dropWhile_cons_of_neg (by simp [Token.isSymbol_of_isWord hword])] at hfirst
    obtain ⟨_, hread⟩ := readIntersection_of_readonly hword hfirst
    cases readUnionParts_eq (exhausted_readType hread).union hparts
    exact ⟨_, hread⟩

/-- A type with the word `readonly` in front is the type behind the word. -/
theorem readType_of_readonly (hword : word.isWord "readonly" = true)
    (h : readType depth setting (word :: tokens) = some found) :
    ∃ depth, readType depth setting tokens = some found := by
  cases depth with
  | zero =>
    rw [readType] at h
    cases h
  | succ depth =>
    rw [readType] at h
    obtain ⟨left, hleft, h⟩ := Option.bind_eq_some_iff.1 h
    obtain ⟨_, hread⟩ := readUnion_of_readonly hword hleft
    refine ⟨_, hread.trans ?_⟩
    dsimp only at h
    split at h
    · next token more hbehind =>
      rw [if_neg ((exhausted_readType hread).condition token more hbehind)] at h
      exact h
    · exact h

/-- The word in front of a read-only type is left out. -/
theorem startsBehind_of_readonly (hword : word.isWord "readonly" = true)
    (h : readType depth setting (word :: tokens) = some (type, rest)) :
    StartsBehind tokens type := by
  obtain ⟨_, hread⟩ := readType_of_readonly hword h
  exact (readersStart _).type hread

end Exhausted

end Grammar

end InterfaceSchema
