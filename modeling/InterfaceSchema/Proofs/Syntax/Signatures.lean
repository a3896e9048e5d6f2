import InterfaceSchema.Proofs.Syntax.Contiguity
import InterfaceSchema.Proofs.Syntax.Written

/-!
# Property signatures in a source

A property says where its name stands. In front of the name there are modifiers,
the word `readonly` among them if the property is declared so, and behind it are the
tokens of the source from there on: a question mark if the property is optional, and
then a colon if it has a type. Its type is read from the tokens behind the colon.
-/

namespace InterfaceSchema

open Grammar

/-- The tokens from the colon behind a name on, a question mark between them
being left out. -/
def PropertyHead.behindName (source : Text) (head : PropertyHead) : List Token :=
  (tokensAt source head.nameSpan.stop).drop (if head.optional then 1 else 0)

/-- The tokens from behind the colon on. -/
def PropertyHead.behindColon (source : Text) (head : PropertyHead) : List Token :=
  (head.behindName source).tail

/-- The type of a property was read from the tokens behind its colon, and the
property ends with it. -/
structure Property.Annotated (source : Text) (property : Property) (type : TypeExpr) : Prop where
  colon : (property.head.behindName source).head?.any (fun token => token.isSymbol ":") = true
  read : ∃ depth setting rest, setting.source = source ∧
    readType depth setting (property.head.behindColon source) = some (type, rest)
  stop : property.head.span.stop = type.span.stop

/-- The tokens that a property starts with, in front of its name, are the modifiers;
one of them is the word `readonly` exactly if the property is declared so. -/
def PropertyHead.Modified (source : Text) (head : PropertyHead) : Prop :=
  ∃ modifiers name behind, Contiguous source (modifiers ++ name :: behind) ∧
    head.span.start = startOf (modifiers ++ name :: behind) ∧ head.nameSpan.start = name.start ∧
    head.readonly = modifiers.any fun token => token.isWord "readonly"

/-- A property as it stands in the source. -/
structure Property.Stands (source : Text) (property : Property) : Prop where
  modified : property.head.Modified source
  name : property.head.name = property.head.nameSpan.slice source
  quoted : property.head.name.head? = some '\'' ∨ property.head.name.head? = some '"' →
    property.head.name.IsQuoted
  optional : property.head.optional =
    (tokensAt source property.head.nameSpan.stop).head?.any fun token => token.isSymbol "?"
  annotated : ∀ type, property.type = some type → property.Annotated source type
  bare : property.type = none →
    (property.head.behindName source).head?.any (fun token => token.isSymbol ":") = false

variable {source : Text} {setting : Setting} {depth : Nat} {tokens rest : List Token}
  {property : Property}

/-- A text that stands in the source is what its span covers. -/
theorem Stands.slice {text : Text} {position : Nat} (h : Stands source text position) :
    Span.slice ⟨position, position + Text.byteLength text⟩ source = text := by
  obtain ⟨before, after, rfl, rfl⟩ := h
  exact Span.slice_append before text after

/-- A part of the source starts with what stands where it starts, unless it is
empty. -/
theorem Stands.head?_slice {c d : Char} {position stop : Nat} (h : Stands source [c] position)
    (hhead : (Span.slice ⟨position, stop⟩ source).head? = some d) : d = c := by
  obtain ⟨before, after, rfl, rfl⟩ := h
  rw [Span.slice, Text.dropBytes_byteLength_append, List.singleton_append, Text.takeBytes] at hhead
  split at hhead
  · exact (Option.some.inj hhead).symm
  · cases hhead

namespace Grammar

/-- The tokens start with others before the rest, and one of those is the word
`readonly` or none is. -/
def Passes (readonly : Bool) (tokens rest : List Token) : Prop :=
  ∃ front, tokens = front ++ rest ∧ readonly = front.any fun token => token.isWord "readonly"

/-- Tokens that are passed one after the other. -/
theorem Passes.trans {first second : Bool} {between : List Token} (h : Passes first tokens between)
    (hrest : Passes second between rest) : Passes (first || second) tokens rest := by
  obtain ⟨front, rfl, rfl⟩ := h
  obtain ⟨back, rfl, rfl⟩ := hrest
  exact ⟨front ++ back, (List.append_assoc _ _ _).symm, List.any_append.symm⟩

/-- No token is passed. -/
theorem Passes.refl (tokens : List Token) : Passes false tokens tokens :=
  ⟨[], rfl, rfl⟩

/-- A modifier that is taken is the first token. -/
theorem exists_of_takeModifier {words : List String} (h : takeModifier words tokens = some rest) :
    ∃ token, isOneOf words token = true ∧ tokens = token :: rest := by
  unfold takeModifier at h
  split at h
  · next token next more =>
    split at h
    · next hmodifier =>
      cases h
      rw [Bool.and_eq_true, Bool.and_eq_true] at hmodifier
      exact ⟨token, hmodifier.1.1, rfl⟩
    · cases h
  · cases h

/-- A modifier other than `readonly`. -/
theorem passes_other {words : List String} (hwords : "readonly" ∉ words)
    (h : takeModifier words tokens = some rest) : Passes false tokens rest := by
  obtain ⟨token, hmodifier, rfl⟩ := exists_of_takeModifier h
  obtain ⟨word, hword, htoken⟩ := List.any_eq_true.1 hmodifier
  have hother : token.isWord "readonly" = false :=
    Token.isWord_other htoken (ne_of_mem_of_not_mem hword hwords)
  exact ⟨[token], rfl, by simp [hother]⟩

/-- A modifier other than `readonly`, if there is one. -/
theorem passes_getD {words : List String} (hwords : "readonly" ∉ words) (tokens : List Token) :
    Passes false tokens ((takeModifier words tokens).getD tokens) := by
  cases h : takeModifier words tokens with
  | none => exact .refl tokens
  | some rest => exact passes_other hwords h

/-- The modifiers in front of a member say whether it is declared `readonly`. -/
theorem passes_readModifiers (tokens : List Token) :
    Passes (readModifiers tokens).1.readonly tokens (readModifiers tokens).2 := by
  unfold readModifiers
  extract_lets visible static override
  have hoverride : Passes false tokens override :=
    ((passes_getD (by decide) _).trans (passes_getD (by decide) _)).trans
      (passes_getD (by decide) _)
  split
  next readonly behind hreadonly =>
  have hbehind : Passes readonly tokens behind := by
    split at hreadonly
    · next more hmore =>
      cases hreadonly
      obtain ⟨token, hmodifier, htoken⟩ := exists_of_takeModifier hmore
      refine hoverride.trans ⟨[token], htoken, ?_⟩
      simpa [isOneOf] using hmodifier.symm
    · cases hreadonly
      exact hoverride
  split
  next async after hasync =>
  have hafter : Passes readonly tokens after := by
    split at hasync
    · next more hmore =>
      cases hasync
      simpa using hbehind.trans (passes_other (by decide) hmore)
    · cases hasync
      exact hbehind
  split
  · next star more hstar =>
    obtain ⟨rfl, hsymbol⟩ := eq_of_takeSymbol hstar
    have hword : star.isWord "readonly" = false :=
      Token.isWord_of_kind (by rw [Token.kind_of_isSymbol hsymbol]; decide) _
    have hpassed : Passes false (star :: more) more := ⟨[star], rfl, by simp [hword]⟩
    simpa using hafter.trans hpassed
  · split
    · next more hget => simpa using hafter.trans (passes_other (by decide) hget)
    · exact hafter

/-- What is read behind the name of a property. -/
theorem readSignature_property {docs : Option Span} {start : Nat} {flags : Modifiers}
    {name : Text} {span : Span} (hs : setting.source = source)
    (htokens : tokens = [] ∨ tokens = tokensAt source span.stop)
    (hmodified : ∃ modifiers first behind, Contiguous source (modifiers ++ first :: behind) ∧
      start = startOf (modifiers ++ first :: behind) ∧ span.start = first.start ∧
      flags.readonly = modifiers.any fun token => token.isWord "readonly")
    (hname : name = span.slice source)
    (hquoted : name.head? = some '\'' ∨ name.head? = some '"' → name.IsQuoted)
    (h : readSignature depth setting docs start flags name span tokens =
      some (.property property, rest)) : property.Stands source := by
  cases depth with
  | zero =>
    rw [readSignature] at h
    cases h
  | succ depth =>
    rw [readSignature] at h
    split at h
    next optional stop behind hmark =>
    have hbehind : optional = tokens.head?.any (fun token => token.isSymbol "?") ∧
        behind = tokens.drop (if optional then 1 else 0) := by
      split at hmark
      · next mark more htake =>
        cases hmark
        obtain ⟨rfl, hsymbol⟩ := eq_of_takeSymbol htake
        exact ⟨hsymbol.symm, rfl⟩
      · next hnone =>
        cases hmark
        refine ⟨?_, rfl⟩
        cases tokens with
        | nil => rfl
        | cons token more =>
          rw [takeSymbol] at hnone
          split at hnone
          · cases hnone
          · next hsymbol => exact (eq_false_of_ne_true hsymbol).symm
    obtain ⟨hoptional, hbehind⟩ := hbehind
    dsimp only at h
    split at h
    · cases h
    next token more =>
    have htokens : tokens = tokensAt source span.stop := by
      refine htokens.resolve_left ?_
      rintro rfl
      rw [List.drop_nil] at hbehind
      cases hbehind
    rw [htokens] at hoptional hbehind
    split at h
    · obtain ⟨_, -, h⟩ := Option.bind_eq_some_iff.1 h
      cases h
    split at h
    · next hcolon =>
      obtain ⟨⟨type, left⟩, htype, h⟩ := Option.bind_eq_some_iff.1 h
      cases h
      refine ⟨hmodified, hname, hquoted, hoptional, ?_,
        fun hnone => absurd hnone (Option.some_ne_none _)⟩
      rintro _ ⟨⟩
      refine ⟨?_, ⟨depth, setting, left, hs, ?_⟩, rfl⟩
      · change (List.drop _ (tokensAt source span.stop)).head?.any _ = true
        rw [← hbehind]
        exact hcolon
      · change readType depth setting (List.drop _ (tokensAt source span.stop)).tail = _
        rw [← hbehind]
        exact htype
    · next hcolon =>
      cases h
      refine ⟨hmodified, hname, hquoted, hoptional,
        fun _ hsome => absurd hsome.symm (Option.some_ne_none _), fun _ => ?_⟩
      change (List.drop _ (tokensAt source span.stop)).head?.any _ = false
      rw [← hbehind]
      exact eq_false_of_ne_true hcolon

/-- An index signature is no property. -/
theorem readIndex_ne_property (start : Nat) :
    readIndex depth setting start tokens ≠ some (.property property, rest) := by
  intro h
  cases depth with
  | zero =>
    rw [readIndex] at h
    cases h
  | succ depth =>
    rw [readIndex] at h
    simp only [Option.bind_eq_bind, Option.bind_eq_some_iff, Option.some.injEq] at h
    obtain ⟨_, -, _, -, _, -, _, -, h⟩ := h
    cases h

/-- The tokens behind a computed name are those behind its closing bracket. -/
theorem behind_computedKey {reach : Reach} (hs : setting.source = source)
    (h : Contiguous source tokens)
    (hreach : follow depth setting (.part .computedKey) (Reach.before tokens) = some reach) :
    reach.tokens = [] ∨ reach.tokens = tokensAt source reach.stop := by
  obtain ⟨_, hreach⟩ := exists_of_follow_part hreach
  obtain ⟨_, _, hopening, hreach⟩ := exists_of_follow_both hreach
  obtain ⟨_, _, hinside, hclosing⟩ := exists_of_follow_both hreach
  have hbehind (reach : Reach) {next : Reach} {depth : Nat} {pattern : Pattern}
      (hpattern : pattern.isWhole = true) (htokens : Contiguous source reach.tokens)
      (hnext : follow depth setting pattern reach = some next) : Contiguous source next.tokens :=
    ((readersLeave (reading (contiguity source)) depth).follow hs hpattern htokens next hnext).2
  have hbefore := hbehind _ rfl (hbehind (Reach.before tokens) rfl h hopening) hinside
  obtain ⟨last, htokens, -, hstop⟩ := exists_symbol hclosing
  rw [htokens] at hbefore
  rw [hstop]
  exact hbefore.2.2

/-- A property that was read stands in the source. -/
theorem stands_of_reads (h : (contiguity source).Reads property) : property.Stands source := by
  obtain ⟨depth, setting, docs, tokens, rest, hs, htokens, hread⟩ := h
  cases depth with
  | zero =>
    rw [readMember] at hread
    cases hread
  | succ depth =>
    rw [readMember] at hread
    dsimp only at hread
    split at hread
    · exact absurd hread (readIndex_ne_property _)
    split at hread
    · obtain ⟨_, -, hread⟩ := Option.bind_eq_some_iff.1 hread
      cases hread
    split at hread
    · cases hread
    have hmodifiers : (contiguity source).Holds (readModifiers tokens).2 :=
      TokenInvariant.Holds.of_suffix htokens (readModifiers_suffix tokens)
    split at hread
    · cases hread
    next token more hname =>
    obtain ⟨front, hfront, hreadonly⟩ := passes_readModifiers tokens
    rw [hname] at hmodifiers hfront
    have hmodified : ∃ modifiers name behind, Contiguous source (modifiers ++ name :: behind) ∧
        startOf tokens = startOf (modifiers ++ name :: behind) ∧ token.start = name.start ∧
        (readModifiers tokens).1.readonly = modifiers.any fun token => token.isWord "readonly" :=
      ⟨front, token, more, hfront ▸ htokens, congrArg startOf hfront, rfl, hreadonly⟩
    obtain ⟨hstands, hspelled, hmore⟩ := hmodifiers
    split at hread
    · next hopening =>
      obtain ⟨reach, hreach, hread⟩ := Option.bind_eq_some_iff.1 hread
      have hname : Contiguous source (token :: more) := ⟨hstands, hspelled, hmore⟩
      have htokens := behind_computedKey hs hname hreach
      refine readSignature_property hs htokens hmodified (by rw [hs]) ?_ hread
      -- the name starts with the bracket
      have hbracket : token.text = ['['] := by
        rw [Token.isSymbol, Bool.and_eq_true, beq_iff_eq, beq_iff_eq] at hopening
        exact hopening.2
      rw [hbracket] at hstands
      rintro (hquote | hquote)
      · rw [hs] at hquote
        exact absurd (hstands.head?_slice hquote) (by decide)
      · rw [hs] at hquote
        exact absurd (hstands.head?_slice hquote) (by decide)
    split at hread
    · next hopening hkey =>
      refine readSignature_property hs hmore hmodified ?_ ?_ hread
      · exact hstands.slice.symm
      · intro hquote
        by_cases hstring : token.kind = .string
        · exact hspelled.quoted hstring
        · have hbroken : token.kind ≠ .broken := by
            intro hkind
            simp [startsKey, Token.isSymbol, hkind] at hkey
          obtain ⟨hsingle, hdouble⟩ := hspelled.bare hstring hbroken
          exact (hquote.elim hsingle hdouble).elim
    · cases hread

end Grammar

/-- The properties of a source file stand in its source, at any depth. -/
theorem SourceFile.stands_of_read {file : SourceFile} (h : SourceFile.read source = some file) :
    ∀ property ∈ file.properties, property.Stands source := fun property hproperty =>
  stands_of_reads ((contiguity source).reads_of_read contiguous_scan h property hproperty)

end InterfaceSchema
