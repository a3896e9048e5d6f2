import InterfaceSchema.Proofs.Syntax.Legible
import InterfaceSchema.Proofs.Syntax.Tame

/-!
# Printed types among tokens

Where the pieces of a type are written, the tokens at the front are spelled
like them, and tokens behind them go on. How a reader goes on with a type
shows in its first two tokens, and in the sign that stands behind it.
-/

namespace InterfaceSchema

open Grammar Piece

variable {setting : Setting} {pieces more : List Piece} {tokens rest : List Token}
  {kind : TokenKind} {text : Text}

namespace Spelled

/-- No pieces are spelled by no tokens. -/
theorem eq_nil (h : Spelled [] tokens) : tokens = [] := List.map_eq_nil_iff.1 h

/-- A token is spelled before the others. -/
theorem exists_token (h : Spelled (.token kind text :: pieces) tokens) :
    ∃ token behind, tokens = token :: behind ∧ token.face = (kind, text, .none) ∧
      Spelled pieces behind := by
  obtain ⟨token, behind, rfl, hface, hspelled⟩ := List.map_eq_cons_iff.1 h
  exact ⟨token, behind, rfl, hface, hspelled⟩

/-- Pieces are spelled before those behind them. -/
theorem exists_append (h : Spelled (pieces ++ more) tokens) :
    ∃ front behind, tokens = front ++ behind ∧ Spelled pieces front ∧ Spelled more behind := by
  rw [Spelled, List.filterMap_append, List.map_eq_append_iff] at h
  exact h

end Spelled

/-- The pieces are spelled by tokens before others, all of them tame. -/
structure Printed (setting : Setting) (pieces : List Piece) (tokens rest : List Token) : Prop where
  spelled : Spelled pieces tokens
  tame : AllTame setting.source (tokens ++ rest)
  /-- No expression goes on behind the type. -/
  converting : setting.converting = false

namespace Printed

/-- A token is written before the others. -/
theorem exists_token (h : Printed setting (.token kind text :: pieces) tokens rest) :
    ∃ token behind, tokens = token :: behind ∧ token.face = (kind, text, .none) ∧
      Printed setting pieces behind rest := by
  obtain ⟨token, behind, rfl, hface, hspelled⟩ := h.spelled.exists_token
  exact ⟨token, behind, rfl, hface, hspelled, AllTame.tail h.tame, h.converting⟩

/-- Pieces are written before those behind them. -/
theorem exists_append (h : Printed setting (pieces ++ more) tokens rest) :
    ∃ front behind, tokens = front ++ behind ∧ Printed setting pieces front (behind ++ rest) ∧
      Printed setting more behind rest := by
  obtain ⟨front, behind, rfl, hfront, hbehind⟩ := h.spelled.exists_append
  have htame := h.tame
  rw [List.append_assoc] at htame
  exact ⟨front, behind, rfl, ⟨hfront, htame, h.converting⟩,
    hbehind, htame.of_subset (List.subset_append_right _ _), h.converting⟩

/-- A blank is not written as a token. -/
theorem of_blank (h : Printed setting (blank :: pieces) tokens rest) :
    Printed setting pieces tokens rest := ⟨h.spelled, h.tame, h.converting⟩

/-- What is written is written inside of brackets as well. -/
theorem inside (h : Printed setting pieces tokens rest) :
    Printed setting.inside pieces tokens rest := ⟨h.spelled, h.tame, rfl⟩

/-- What is written is written among members as well. -/
theorem lines (h : Printed setting pieces tokens rest) :
    Printed setting.lines pieces tokens rest := ⟨h.spelled, h.tame, rfl⟩

end Printed

section Faces

variable {token : Token} {symbol : String} {kind : TokenKind} {gap : Gap}

/-- The kind of a token shows in its face. -/
theorem Token.kind_of_face (h : token.face = (kind, text, gap)) : token.kind = kind :=
  congrArg Prod.fst h

/-- The text of a token shows in its face. -/
theorem Token.text_of_face (h : token.face = (kind, text, gap)) : token.text = text :=
  congrArg (fun face => face.2.1) h

/-- The gap of a token shows in its face. -/
theorem Token.gap_of_face (h : token.face = (kind, text, gap)) : token.gap = gap :=
  congrArg (fun face => face.2.2) h

/-- A token of another kind is no symbol. -/
theorem Token.isSymbol_of_kind (h : token.kind ≠ .symbol) (symbol : String) :
    token.isSymbol symbol = false := by
  rw [isSymbol, beq_false_of_ne h, Bool.false_and]

/-- A word is no symbol. -/
theorem Token.isSymbol_of_word (h : token.kind = .word) (symbol : String) :
    token.isSymbol symbol = false :=
  isSymbol_of_kind (by rw [h]; decide) symbol

/-- A token of another kind is no word. -/
theorem Token.isWord_of_kind (h : token.kind ≠ .word) (word : String) :
    token.isWord word = false := by
  rw [isWord, beq_false_of_ne h, Bool.false_and]

/-- A symbol is no other symbol. -/
theorem Token.isSymbol_other (h : token.isSymbol symbol = true) {other : String}
    (hne : symbol ≠ other) : token.isSymbol other = false := by
  rw [isSymbol, Bool.and_eq_true, beq_iff_eq, beq_iff_eq] at h
  rw [isSymbol, h.2, beq_false_of_ne (fun heq => hne (String.toList_inj.1 heq)), Bool.and_false]

/-- A token that is a word is no symbol. -/
theorem Token.isSymbol_of_isWord {word : String} (h : token.isWord word = true)
    (symbol : String) : token.isSymbol symbol = false :=
  isSymbol_of_word (eq_of_beq (Bool.and_eq_true_iff.1 h).1) symbol

/-- A word is no other word. -/
theorem Token.isWord_other {word other : String} (h : token.isWord word = true)
    (hne : word ≠ other) : token.isWord other = false := by
  rw [isWord, Bool.and_eq_true, beq_iff_eq, beq_iff_eq] at h
  rw [isWord, h.2, beq_false_of_ne (fun heq => hne (String.toList_inj.1 heq)), Bool.and_false]

/-- A symbol is of that kind. -/
theorem Token.kind_of_isSymbol (h : token.isSymbol symbol = true) : token.kind = .symbol := by
  rw [isSymbol, Bool.and_eq_true, beq_iff_eq] at h
  exact h.1

/-- A token with the face of a symbol is the symbol. -/
theorem Token.isSymbol_of_face (h : token.face = (.symbol, symbol.toList, .none)) :
    token.isSymbol symbol = true := by
  obtain ⟨kind, text, start, gap⟩ := token
  cases h
  exact Bool.and_eq_true_iff.2 ⟨rfl, beq_self_eq_true _⟩

/-- A token with the face of a word is this word or is not. -/
theorem Token.isWord_of_face (h : token.face = (.word, text, .none)) (word : String) :
    token.isWord word = (text == word.toList) := by
  obtain ⟨kind, text, start, gap⟩ := token
  cases h
  rfl

/-- Behind a token on the same line no type may end. -/
theorem Token.endsType_of_face (h : token.face = (kind, text, .none))
    (hkind : kind ≠ .finish) : token.endsType = false := by
  obtain ⟨_, text, start, gap⟩ := token
  cases h
  rw [endsType, beq_false_of_ne hkind]
  rfl

end Faces

/-- The first token is one of these symbols. -/
def OpensWith (symbols : List String) (tokens : List Token) : Prop :=
  ∃ token behind, tokens = token :: behind ∧ ∃ symbol ∈ symbols, token.isSymbol symbol = true

/-- A sign at the front opens what it spells. -/
theorem opens_of_spelled {symbol : String} {symbols : List String}
    (h : Spelled (sign symbol :: pieces) tokens) (hmem : symbol ∈ symbols) (rest : List Token) :
    OpensWith symbols (tokens ++ rest) := by
  obtain ⟨token, behind, rfl, hface, -⟩ := h.exists_token
  exact ⟨token, behind ++ rest, rfl, symbol, hmem, Token.isSymbol_of_face hface⟩

/-- Signs among more ones. -/
theorem OpensWith.mono {symbols others : List String} (h : OpensWith symbols tokens)
    (hsubset : symbols ⊆ others) : OpensWith others tokens := by
  obtain ⟨token, behind, rfl, symbol, hmem, hsymbol⟩ := h
  exact ⟨token, behind, rfl, symbol, hsubset hmem, hsymbol⟩

/-- Tokens that open with a sign are not empty. -/
theorem OpensWith.ne_nil {symbols : List String} (h : OpensWith symbols tokens) : tokens ≠ [] := by
  obtain ⟨token, behind, rfl, -⟩ := h
  exact List.cons_ne_nil _ _

/-- A token that opens with one of some signs is no other sign. -/
theorem OpensWith.isSymbol {symbols : List String} {token : Token} {other : String}
    (h : OpensWith symbols (token :: tokens)) (hother : other ∉ symbols) :
    token.isSymbol other = false := by
  obtain ⟨_, _, heq, symbol, hmem, hsymbol⟩ := h
  obtain ⟨rfl, -⟩ := List.cons.inj heq
  exact Token.isSymbol_other hsymbol fun heq => hother (heq ▸ hmem)

/-- A token that opens with a sign is a symbol. -/
theorem OpensWith.kind_eq {symbols : List String} {token : Token}
    (h : OpensWith symbols (token :: tokens)) : token.kind = .symbol := by
  obtain ⟨_, _, heq, symbol, -, hsymbol⟩ := h
  obtain ⟨rfl, -⟩ := List.cons.inj heq
  exact Token.kind_of_isSymbol hsymbol

/-- A token that opens with a sign is no word. -/
theorem OpensWith.isWord {symbols : List String} {token : Token}
    (h : OpensWith symbols (token :: tokens)) (word : String) : token.isWord word = false :=
  Token.isWord_of_kind (by rw [h.kind_eq]; decide) word

/-- Tokens that open with a sign are a token and others. -/
theorem OpensWith.exists_cons {symbols : List String} (h : OpensWith symbols tokens) :
    ∃ token behind, tokens = token :: behind := by
  obtain ⟨token, behind, rfl, -⟩ := h
  exact ⟨token, behind, rfl⟩

/-- Signs that stand behind a type. -/
def closers : List String := [";", ")", "]", ",", ">"]

/-- Signs that stand behind a part of a type. -/
def separators : List String := "[" :: "&" :: "|" :: closers

/-- How a type begins: no sign that stands before or between types, no word
that stands before a type, and no label. -/
structure StartsType (first second : Token) : Prop where
  symbol : ∀ symbol ∈ ["|", "&", ",", "]", ">", "..."], first.isSymbol symbol = false
  word : ∀ word ∈ ["new", "abstract", "readonly", "infer"], first.isWord word = false
  label : first.kind = .word → ∀ mark ∈ [":", "?"], second.isSymbol mark = false

/-- The tokens begin as a type does. -/
def Begins (tokens : List Token) : Prop :=
  ∃ first second behind, tokens = first :: second :: behind ∧ StartsType first second

/-- Wherever it is spelled, the type begins as a type does. -/
def TypeExpr.Leading (type : TypeExpr) : Prop :=
  ∀ {tokens rest : List Token}, Spelled type.pieces tokens → OpensWith separators rest →
    Begins (tokens ++ rest)

/-- A symbol that a type may start with begins one before anything. -/
theorem begins_symbol {token : Token} {symbol : String} (h : token.isSymbol symbol = true)
    (hsymbol : symbol ∉ ["|", "&", ",", "]", ">", "..."]) (hrest : tokens ≠ []) :
    Begins (token :: tokens) := by
  obtain ⟨second, behind, rfl⟩ := List.exists_cons_of_ne_nil hrest
  have hkind := Token.kind_of_isSymbol h
  refine ⟨token, second, behind, rfl, fun other hother => ?_, fun word _ => ?_, fun hword => ?_⟩
  · exact Token.isSymbol_other h fun heq => hsymbol (heq ▸ hother)
  · exact Token.isWord_of_kind (by rw [hkind]; decide) word
  · rw [hkind] at hword
    cases hword

/-- A word that starts no other type begins one before a separator, a dot or
type arguments. -/
theorem begins_word {token : Token} (h : token.face = (.word, text, .none))
    (hword : ∀ word ∈ ["new", "abstract", "readonly", "infer"], text ≠ word.toList)
    (hrest : OpensWith ("." :: "<" :: separators) rest) : Begins (token :: rest) := by
  obtain ⟨second, behind, rfl, symbol, hmem, hsymbol⟩ := hrest
  have hmarks : ∀ mark ∈ [":", "?"], mark ∉ "." :: "<" :: separators := by decide
  refine ⟨token, second, behind, rfl, fun other _ => ?_, fun word hmem => ?_,
    fun _ mark hmark => ?_⟩
  · exact Token.isSymbol_of_word (Token.kind_of_face h) other
  · rw [Token.isWord_of_face h, beq_false_of_ne (hword word hmem)]
  · exact Token.isSymbol_other hsymbol fun heq => hmarks mark hmark (heq ▸ hmem)

/-- A string or number begins a type before anything. -/
theorem begins_literal {token : Token} (h : token.kind = .string ∨ token.kind = .number)
    (hrest : tokens ≠ []) : Begins (token :: tokens) := by
  obtain ⟨second, behind, rfl⟩ := List.exists_cons_of_ne_nil hrest
  have hsymbol : token.kind ≠ .symbol := by rcases h with h | h <;> rw [h] <;> decide
  have hword : token.kind ≠ .word := by rcases h with h | h <;> rw [h] <;> decide
  exact ⟨token, second, behind, rfl, fun other _ => Token.isSymbol_of_kind hsymbol other,
    fun word _ => Token.isWord_of_kind hword word, fun h => absurd h hword⟩

/-- A dotted name starts with its first word. -/
theorem exists_dotted (name : Text) : ∃ part parts, name.splitOn '.' = part :: parts ∧
    dotted name = .token .word part ::
      parts.flatMap fun part => [sign ".", .token .word part] := by
  obtain ⟨part, parts, hparts⟩ := List.exists_cons_of_ne_nil (List.splitOn_ne_nil '.' name)
  refine ⟨part, parts, hparts, ?_⟩
  rw [dotted, hparts, List.map_cons, joined, List.flatMap_map]
  rfl

/-- Types are printed one by one. -/
theorem allPieces_eq_map (types : List TypeExpr) :
    TypeExpr.allPieces types = types.map TypeExpr.pieces := by
  induction types with
  | nil => rfl
  | cons type types ih => rw [TypeExpr.allPieces, ih, List.map_cons]

/-- Types with signs between them are those of the first one before the
others. -/
theorem joined_cons (between : List Piece) (type : TypeExpr) (types : List TypeExpr) :
    joined between (TypeExpr.allPieces (type :: types)) =
      type.pieces ++ types.flatMap fun part => between ++ part.pieces := by
  rw [TypeExpr.allPieces, joined, allPieces_eq_map, List.flatMap_map]

/-- Types with a sign between them begin as the first one does. -/
theorem begins_joined {symbol : String} (hsymbol : symbol ∈ separators) {types : List TypeExpr}
    (hlength : 2 ≤ types.length)
    (htypes : ∀ type ∈ types, type.Leading)
    (h : Spelled (joined [blank, sign symbol, blank] (TypeExpr.allPieces types)) tokens) :
    Begins (tokens ++ rest) := by
  obtain ⟨first, others, rfl⟩ := List.exists_cons_of_length_pos (by omega : 0 < types.length)
  obtain ⟨second, others, rfl⟩ :=
    List.exists_cons_of_ne_nil (by rintro rfl; simp at hlength : others ≠ [])
  rw [joined_cons] at h
  obtain ⟨front, behind, rfl, hfront, hbehind⟩ := h.exists_append
  rw [List.append_assoc]
  exact htypes first List.mem_cons_self hfront (opens_of_spelled hbehind hsymbol rest)

/-- A literal begins as a type does. -/
theorem begins_piece_literal {literal : Literal} (hprintable : literal.Printable)
    (h : Spelled (Piece.literal literal) tokens) (hrest : OpensWith separators rest) :
    Begins (tokens ++ rest) := by
  have hne (more : List Token) : more ++ rest ≠ [] := by simp [hrest.ne_nil]
  have hboolean {word : Text} (h : Spelled [.token .word word] tokens)
      (hword : ∀ other ∈ ["new", "abstract", "readonly", "infer"], word ≠ other.toList) :
      Begins (tokens ++ rest) := by
    obtain ⟨token, behind, rfl, hface, hbehind⟩ := h.exists_token
    obtain rfl := hbehind.eq_nil
    exact begins_word hface hword (hrest.mono (by decide))
  cases literal with
  | string value =>
    obtain ⟨token, behind, rfl, hface, -⟩ := h.exists_token
    exact begins_literal (.inl (Token.kind_of_face hface)) (hne _)
  | number spelling =>
    rw [Piece.literal] at h
    unfold Piece.number at h
    split at h
    · obtain ⟨token, behind, rfl, hface, -⟩ := h.exists_token
      exact begins_symbol (Token.isSymbol_of_face hface) (by decide) (hne _)
    · obtain ⟨token, behind, rfl, hface, -⟩ := h.exists_token
      exact begins_literal (.inr (Token.kind_of_face hface)) (hne _)
  | boolean value =>
    cases value
    · exact hboolean h (by decide)
    · exact hboolean h (by decide)

/-- A name with or without type arguments begins as a type does. -/
theorem begins_reference {name : Text} {arguments : List TypeExpr} {span : Span}
    (hname : IsTypeName name) (h : Spelled (TypeExpr.reference name arguments span).pieces tokens)
    (hrest : OpensWith separators rest) : Begins (tokens ++ rest) := by
  obtain ⟨part, parts, hparts, hdotted⟩ := exists_dotted name
  have hwords : ∀ word ∈ ["new", "abstract", "readonly", "infer"], part ≠ word.toList := by
    have hsubset : ["new", "abstract", "readonly", "infer"] ⊆ plainWords ++ typeWords := by decide
    intro word hword
    refine hname.first part ?_ word (hsubset hword)
    rw [hparts]
    rfl
  rw [TypeExpr.pieces, hdotted, List.cons_append] at h
  obtain ⟨token, behind, rfl, hface, hbehind⟩ := h.exists_token
  refine begins_word hface hwords ?_
  cases parts with
  | cons next parts => exact opens_of_spelled hbehind (by decide) rest
  | nil =>
    cases arguments with
    | nil =>
      obtain rfl := hbehind.eq_nil
      exact hrest.mono (by decide)
    | cons type types => exact opens_of_spelled hbehind (by decide) rest

mutual

/-- A printable type begins as a type does. -/
theorem begins_type {tokens rest : List Token} : (type : TypeExpr) → type.Printable →
    Spelled type.pieces tokens → OpensWith separators rest → Begins (tokens ++ rest)
  | .keyword keyword _, _, h, hrest => by
    obtain ⟨token, behind, rfl, hface, hbehind⟩ := h.exists_token
    obtain rfl := hbehind.eq_nil
    exact begins_word hface (by cases keyword <;> decide) (hrest.mono (by decide))
  | .literal _ _, hprintable, h, hrest => begins_piece_literal hprintable h hrest
  | .reference _ _ _, hprintable, h, hrest => begins_reference hprintable.1 h hrest
  | .array item _, hprintable, h, hrest => by
    obtain ⟨front, behind, rfl, hfront, hbehind⟩ := h.exists_append
    rw [List.append_assoc]
    exact begins_type item hprintable.2 hfront (opens_of_spelled hbehind (by decide) rest)
  | .tuple items _, _, h, hrest => by
    obtain ⟨token, behind, rfl, hface, hbehind⟩ := h.exists_token
    exact begins_symbol (Token.isSymbol_of_face hface) (by decide) (by simp [hrest.ne_nil])
  | .union parts _, hprintable, h, _ =>
    begins_joined (by decide) hprintable.1 (begins_types parts hprintable.2.2) h
  | .intersection parts _, hprintable, h, _ =>
    begins_joined (by decide) hprintable.1 (begins_types parts hprintable.2.2) h
  | .object members _, _, h, hrest => by
    obtain ⟨token, behind, rfl, hface, hbehind⟩ := h.exists_token
    exact begins_symbol (Token.isSymbol_of_face hface) (by decide) (by simp [hrest.ne_nil])
  | .paren inner _, _, h, hrest => by
    obtain ⟨token, behind, rfl, hface, hbehind⟩ := h.exists_token
    exact begins_symbol (Token.isSymbol_of_face hface) (by decide) (by simp [hrest.ne_nil])
  | .unsupported _, hprintable, _, _ => absurd hprintable id

/-- Printable types begin as types do. -/
theorem begins_types : (types : List TypeExpr) → TypeExpr.AllPrintable types →
    ∀ type ∈ types, type.Leading
  | [], _ => fun _ h => nomatch h
  | type :: types, h =>
    List.forall_mem_cons.2 ⟨fun {_ _} => begins_type type h.1, begins_types types h.2⟩

end

/-- A type that begins as types do is spelled by a token at least. -/
theorem TypeExpr.Leading.ne_nil {type : TypeExpr} (h : type.Leading)
    (hspelled : Spelled type.pieces tokens) : tokens ≠ [] := by
  rintro rfl
  let bar : Token := ⟨.symbol, "|".toList, 0, .none⟩
  obtain ⟨first, second, behind, heq, -⟩ :=
    @h [] [bar] hspelled ⟨bar, [], rfl, "|", by decide, rfl⟩
  simp at heq

/-- No sign that stands between types is left out before one. -/
theorem Begins.dropWhile {symbol : String} (h : Begins tokens)
    (hsymbol : symbol ∈ ["|", "&", ",", "]", ">", "..."]) :
    (tokens.dropWhile fun token => token.isSymbol symbol) = tokens := by
  obtain ⟨first, second, behind, rfl, hleads⟩ := h
  rw [List.dropWhile_cons, hleads.symbol symbol hsymbol]
  rfl

end InterfaceSchema
