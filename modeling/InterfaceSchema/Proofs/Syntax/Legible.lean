import InterfaceSchema.Proofs.Syntax.Lexemes
import InterfaceSchema.Proofs.Syntax.Placement
import InterfaceSchema.Proofs.Syntax.Printing

/-!
# Tokens of printed texts

Pieces are legible before a text if each of them is the token read where it
stands. Legible pieces are scanned as their tokens, without comments and line
feeds between them. The pieces of a printable type are legible before anything
that may stand behind a type.
-/

namespace InterfaceSchema

open Text Piece

/-- A token that is read before this text as what it is. -/
structure ReadsBefore (rest : Text) (kind : TokenKind) (text : Text) : Prop where
  lexeme : ∀ first, Scan.lexeme? first (text ++ rest) = some (kind, text, rest)
  /-- It is no arrow. -/
  arrow : kind = .symbol → text ≠ "=>".toList
  /-- It opens no comment and no template. -/
  head : ∃ c more, text = c :: more ∧ Scan.isBlank c = false ∧ c ∉ ("/`" : Text)

/-- Pieces each of which is read before those behind it and the text. -/
def Legible (rest : Text) : List Piece → Prop
  | [] => True
  | .blank :: pieces => Legible rest pieces
  | .token kind text :: pieces =>
    ReadsBefore (join pieces ++ rest) kind text ∧ Legible rest pieces

/-- What a token is, apart from its place. -/
def Token.face (token : Token) : TokenKind × Text × Gap := (token.kind, token.text, token.gap)

/-- What a piece is as a token. -/
def Piece.face? : Piece → Option (TokenKind × Text × Gap)
  | .token kind text => some (kind, text, .none)
  | .blank => none

/-- The tokens are those of the pieces, with nothing but blanks between
them. -/
def Spelled (pieces : List Piece) (tokens : List Token) : Prop :=
  tokens.map Token.face = pieces.filterMap Piece.face?

variable {rest text : Text} {pieces more : List Piece} {kind : TokenKind}

/-- The text of pieces one after the other. -/
theorem Piece.join_append (pieces more : List Piece) :
    join (pieces ++ more) = join pieces ++ join more := List.flatMap_append

/-- Pieces are legible one after the other. -/
theorem legible_append :
    Legible rest (pieces ++ more) ↔ Legible (join more ++ rest) pieces ∧ Legible rest more := by
  induction pieces with
  | nil => exact (and_iff_right trivial).symm
  | cons piece pieces ih =>
    cases piece with
    | blank => exact ih
    | token kind text =>
      rw [List.cons_append, Legible, Legible, ih, join_append, List.append_assoc, and_assoc]

/-- A token at the front is cut off. -/
theorem tokensFrom_token {c : Char} {left found : Text} {first : Bool} {gap : Gap}
    {position : Nat} (hc : c ∉ ("/`" : Text)) (hblank : Scan.isBlank c = false)
    (hlexeme : Scan.lexeme? first (c :: text) = some (kind, found, left)) (fuel : Nat) :
    Scan.tokensFrom (fuel + 1) first gap position (c :: text) =
      ⟨kind, found, position, gap⟩ ::
        Scan.tokensFrom fuel false .none (position + byteLength found) left := by
  have hslash : c ≠ '/' := fun h => hc (h ▸ List.mem_cons_self)
  have hquote : c ≠ '`' := fun h => hc (h ▸ List.mem_cons_of_mem _ List.mem_cons_self)
  have hfound : found ≠ ['`'] := by
    rintro rfl
    have htext := Scan.eq_of_lexeme? hlexeme
    exact hquote (List.cons.inj htext).1
  generalize hafter : Scan.tokensFrom fuel false .none (position + byteLength found) left = after
  unfold Scan.tokensFrom
  split
  · next heq => cases heq
  · next heq => exact absurd (List.cons.inj heq).1 hslash
  · next heq => exact absurd (List.cons.inj heq).1 hslash
  · next heq =>
    obtain ⟨rfl, rfl⟩ := List.cons.inj heq
    rw [hblank, hlexeme, ← hafter]
    exact (if_neg Bool.false_ne_true).trans (if_neg hfound)

/-- Legible pieces are scanned as their tokens. -/
theorem exists_tokens (h : Legible rest pieces) {fuel : Nat} (first : Bool) (position : Nat)
    (hfuel : (join pieces ++ rest).length < fuel) :
    ∃ tokens left next, rest.length < left ∧ Spelled pieces tokens ∧
      Scan.tokensFrom fuel first .none position (join pieces ++ rest) =
        tokens ++ Scan.tokensFrom left next .none (position + byteLength (join pieces)) rest := by
  induction pieces generalizing fuel first position with
  | nil => exact ⟨[], fuel, first, hfuel, rfl, rfl⟩
  | cons piece pieces ih =>
    cases fuel with
    | zero => exact absurd hfuel (Nat.not_lt_zero _)
    | succ fuel =>
    cases piece with
    | blank =>
      have hjoin : join (.blank :: pieces) ++ rest = ' ' :: (join pieces ++ rest) := rfl
      have hposition : position + byteLength (join (.blank :: pieces)) =
          position + 1 + byteLength (join pieces) := by
        rw [Nat.add_assoc]
        rfl
      have hstep : Scan.tokensFrom (fuel + 1) first .none position (' ' :: (join pieces ++ rest)) =
          Scan.tokensFrom fuel first .none (position + 1) (join pieces ++ rest) := rfl
      rw [hjoin, List.length_cons] at hfuel
      rw [hjoin, hposition, hstep]
      exact ih h first (position + 1) (Nat.lt_of_succ_lt_succ hfuel)
    | token kind text =>
      obtain ⟨⟨hlexeme, -, c, more, htext, hblank, hc⟩, hpieces⟩ := h
      have hjoin : join (.token kind text :: pieces) ++ rest = text ++ (join pieces ++ rest) := by
        rw [← List.append_assoc]
        rfl
      have hposition : position + byteLength (join (.token kind text :: pieces)) =
          position + byteLength text + byteLength (join pieces) := by
        rw [Nat.add_assoc, ← byteLength_append]
        rfl
      have hlength : (join pieces ++ rest).length < fuel := by
        rw [hjoin, List.length_append, htext, List.length_cons] at hfuel
        omega
      obtain ⟨tokens, left, next, hleft, hspelled, heq⟩ :=
        ih hpieces false (position + byteLength text) hlength
      have hfirst := hlexeme first
      rw [htext, List.cons_append, ← htext] at hfirst
      refine ⟨⟨kind, text, position, .none⟩ :: tokens, left, next, hleft, ?_, ?_⟩
      · exact congrArg (List.cons (kind, text, Gap.none)) hspelled
      · rw [hjoin, hposition, htext, List.cons_append, tokensFrom_token hc hblank hfirst, ← htext,
          heq]
        rfl

/-- A text that begins with a character that may stand behind a type, a name
or a word of the language. -/
def Separated (rest : Text) : Prop := ∃ c more, rest = c :: more ∧ c ∈ (" ,;:?)]>[<" : Text)

/-- What separates leaves words and numbers. -/
theorem separators_leave {c : Char} (h : c ∈ (" ,;:?)]>[<" : Text)) :
    (Scan.isWordPart c = false ∧ c ≠ '\\') ∧ c ∉ (".+-" : Text) := by
  have hall : (" ,;:?)]>[<" : Text).all (fun c =>
      !Scan.isWordPart c && c != '\\' && !(".+-" : Text).contains c) = true := rfl
  have hc := List.all_eq_true.1 hall c h
  simpa only [Bool.and_eq_true, Bool.not_eq_true', bne_iff_ne, List.contains_eq_mem,
    decide_eq_false_iff_not] using hc

/-- What separates leaves a word. -/
theorem Separated.leavesWord (h : Separated rest) : LeavesWord rest := by
  obtain ⟨c, more, rfl, hc⟩ := h
  rintro d hd
  cases hd
  exact (separators_leave hc).1

/-- What separates leaves a number. -/
theorem Separated.leavesNumber (h : Separated rest) : LeavesNumber rest := by
  obtain ⟨c, more, rfl, hc⟩ := h
  rintro d hd
  cases hd
  obtain ⟨⟨hpart, -⟩, hsign⟩ := separators_leave hc
  exact ⟨hpart, hsign⟩

/-- How words start. -/
theorem IsWord.exists_cons (h : IsWord text) :
    ∃ c more, text = c :: more ∧ (Scan.isWordStart c = true ∨ c = '\\') := by
  obtain ⟨⟨letter, behind⟩, hletter, -⟩ := Option.map_eq_some_iff.1 h
  cases text with
  | nil => cases hletter
  | cons c more =>
    refine ⟨c, more, rfl, ?_⟩
    by_cases hc : Scan.isWordStart c = true
    · exact .inl hc
    · rw [Scan.letter?, if_neg hc] at hletter
      refine .inr ?_
      unfold Scan.codeEscape? at hletter
      split at hletter
      · next heq => exact (List.cons.inj heq).1
      · next heq => exact (List.cons.inj heq).1
      · cases hletter

/-- A character that starts a word is no sign, blank or digit. -/
theorem not_sign_of_isWordStart {c : Char} (h : Scan.isWordStart c = true ∨ c = '\\') :
    Scan.isBlank c = false ∧ c.isDigit = false ∧ c ∉ ("./`'\"#" : Text) := by
  rcases h with h | rfl
  · have hall : ("./`'\"#" : Text).all Scan.isPunctuation = true := rfl
    simp only [Scan.isWordStart, Bool.not_eq_true', Bool.or_eq_false_iff] at h
    obtain ⟨⟨⟨-, hblank⟩, hdigit⟩, hsign⟩ := h
    refine ⟨hblank, hdigit, fun hc => ?_⟩
    rw [List.all_eq_true.1 hall c hc] at hsign
    cases hsign
  · decide

/-- A word that is cut off is read before what is left. -/
theorem IsWord.readsBefore (h : IsWord text) (hword : Scan.word? (text ++ rest) = some (text, rest)) :
    ReadsBefore rest .word text := by
  obtain ⟨c, more, rfl, hstart⟩ := h.exists_cons
  obtain ⟨hblank, hdigit, hsign⟩ := not_sign_of_isWordStart hstart
  have hne (d : Char) (hd : d ∈ ("./`'\"#" : Text)) : c ≠ d := fun heq => hsign (heq ▸ hd)
  have hnumber : ¬(c.isDigit || (c == '.' && (more ++ rest).head?.any Char.isDigit)) = true := by
    rw [hdigit, beq_eq_false_iff_ne.2 (hne '.' (by decide))]
    exact Bool.false_ne_true
  have hquote : ¬(c = '\'' ∨ c = '"') := not_or.2 ⟨hne '\'' (by decide), hne '"' (by decide)⟩
  rw [List.cons_append] at hword
  refine ⟨fun first => ?_, nofun, c, more, rfl, hblank, fun hc => ?_⟩
  · rw [List.cons_append, Scan.lexeme?, if_neg hnumber, if_neg hquote, if_neg (hne '#' (by decide)),
      hword]
  · rcases List.mem_cons.1 hc with hc | hc
    · exact hne '/' (by decide) hc
    · exact hne '`' (by decide) (List.mem_singleton.1 hc)

/-- A word is read before what leaves it. -/
theorem IsWord.reads (h : IsWord text) (hrest : LeavesWord rest) : ReadsBefore rest .word text :=
  h.readsBefore (Scan.word?_before h hrest)

/-- Digits start with a digit. -/
theorem exists_digit {parts : Text × Text} (h : Digits.digits? 10 text = some parts) :
    ∃ c more, text = c :: more ∧ c.isDigit = true := by
  cases text with
  | nil => cases h
  | cons c more =>
    rw [Digits.digits?] at h
    split at h
    · next hc => exact ⟨c, more, rfl, Digits.isDigit_of_isDigitOf hc⟩
    · cases h

/-- How numbers start. -/
theorem IsNumeral.exists_cons (h : IsNumeral text) :
    ∃ c more, text = c :: more ∧
      (c.isDigit || (c == '.' && more.head?.any Char.isDigit)) = true := by
  have hdigit {parts : Text × Text} (h : Digits.digits? 10 text = some parts) :
      ∃ c more, text = c :: more ∧
        (c.isDigit || (c == '.' && more.head?.any Char.isDigit)) = true := by
    obtain ⟨c, more, htext, hc⟩ := exists_digit h
    exact ⟨c, more, htext, by rw [hc]; rfl⟩
  rw [IsNumeral, Digits.read?] at h
  rcases Option.or_eq_some_iff.1 h with h | ⟨-, h⟩
  · unfold Digits.bareFraction? at h
    split at h
    · next more =>
      obtain ⟨parts, hparts, -⟩ := Option.bind_eq_some_iff.1 h
      obtain ⟨d, left, rfl, hd⟩ := exists_digit hparts
      exact ⟨'.', d :: left, rfl, by simp [hd]⟩
    · cases h
  rcases Option.or_eq_some_iff.1 h with h | ⟨-, h⟩
  · unfold Digits.based? at h
    split at h
    · exact ⟨'0', _, rfl, rfl⟩
    · cases h
  rcases Option.or_eq_some_iff.1 h with h | ⟨-, h⟩
  · obtain ⟨parts, hparts, -⟩ := Option.bind_eq_some_iff.1 h
    unfold Digits.wholePart? at hparts
    split at hparts
    · exact ⟨'0', _, rfl, rfl⟩
    · exact hdigit hparts
  · obtain ⟨parts, hparts, -⟩ := Option.bind_eq_some_iff.1 h
    exact hdigit hparts

/-- A character that starts a number is no blank and opens nothing. -/
theorem not_sign_of_isDigit {c : Char} {more : Text}
    (h : (c.isDigit || (c == '.' && more.head?.any Char.isDigit)) = true) :
    Scan.isBlank c = false ∧ c ∉ ("/`" : Text) := by
  have hall : ∀ n < 128, (Char.ofNat n).isDigit = true →
      Scan.isBlank (Char.ofNat n) = false ∧ Char.ofNat n ∉ ("/`" : Text) := by decide +kernel
  rw [Bool.or_eq_true, Bool.and_eq_true, beq_iff_eq] at h
  rcases h with hdigit | ⟨rfl, -⟩
  · have hle : c.toNat ≤ 57 := by
      simp only [Char.isDigit, Bool.and_eq_true, decide_eq_true_eq,
        UInt32.le_iff_toNat_le] at hdigit
      exact hdigit.2
    have hc := hall c.toNat (by omega)
    rw [Char.ofNat_toNat] at hc
    exact hc hdigit
  · decide

/-- A number is read before what leaves it. -/
theorem IsNumeral.reads (h : IsNumeral text) (hrest : LeavesNumber rest) :
    ReadsBefore rest .number text := by
  obtain ⟨c, more, rfl, hstart⟩ := h.exists_cons
  obtain ⟨hblank, hopens⟩ := not_sign_of_isDigit hstart
  have hnumber : (c.isDigit || (c == '.' && (more ++ rest).head?.any Char.isDigit)) = true := by
    rw [Bool.or_eq_true, Bool.and_eq_true] at hstart ⊢
    refine hstart.imp_right fun ⟨hdot, hnext⟩ => ⟨hdot, ?_⟩
    cases more with
    | nil => cases hnext
    | cons d left => exact hnext
  have hread := Digits.read?_before hrest (c :: more)
  rw [h, List.cons_append] at hread
  refine ⟨fun first => ?_, nofun, c, more, rfl, hblank, hopens⟩
  rw [List.cons_append, Scan.lexeme?, if_pos hnumber, hread]
  rfl

/-- A string is read before anything. -/
theorem IsString.reads (h : IsString text) (rest : Text) : ReadsBefore rest .string text := by
  cases text with
  | nil => exact absurd h id
  | cons quote body =>
    obtain ⟨hquote, hbody⟩ := h
    have hnumber (more : Text) :
        ¬(quote.isDigit || (quote == '.' && more.head?.any Char.isDigit)) = true := by
      rcases hquote with rfl | rfl <;> exact Bool.false_ne_true
    have hescape : quote ≠ '\\' := by rcases hquote with rfl | rfl <;> decide
    refine ⟨fun first => ?_, nofun, quote, body, rfl, ?_, ?_⟩
    · rw [List.cons_append, Scan.lexeme?, if_neg (hnumber _), if_pos hquote,
        Scan.stringBody_before hescape hbody]
      rfl
    · rcases hquote with rfl | rfl <;> rfl
    · rcases hquote with rfl | rfl <;> decide

/-- A quoted text without line ends is a string. -/
theorem isString_quote {value : Text} (hline : '\n' ∉ value) (hreturn : '\r' ∉ value) :
    IsString (quote value) :=
  ⟨.inl rfl, Scan.stringBody_escape hline hreturn⟩

/-- Signs that are read as they are before anything. -/
def signs : List String :=
  ["[", "]", "(", ")", "\x7b", "\x7d", "<", ">", ",", ";", ":", "?", "|", "&"]

/-- These signs are read before anything. -/
theorem reads_sign {symbol : String} (h : symbol ∈ signs) (rest : Text) :
    ReadsBefore rest .symbol symbol.toList := by
  simp only [signs, List.mem_cons, List.not_mem_nil, or_false] at h
  rcases h with
    rfl | rfl | rfl | rfl | rfl | rfl | rfl | rfl | rfl | rfl | rfl | rfl | rfl | rfl <;>
    exact ⟨fun first => by cases first <;> rfl, fun _ => by decide, _, _, rfl, rfl, by decide⟩

/-- A dot or minus sign is read before a character that does not go on with
it. -/
theorem reads_doubled {c d : Char} (hc : c = '.' ∨ c = '-') (hd : d ≠ c)
    (hdigit : c = '.' → d.isDigit = false) (more : Text) :
    ReadsBefore (d :: more) .symbol [c] := by
  have hlong : (Scan.longSymbols.find? fun long => long.isPrefixOf (c :: d :: more)) = none := by
    rcases hc with rfl | rfl <;> simp [Scan.longSymbols, List.isPrefixOf, hd.symm]
  have hsymbol : Scan.symbol? (c :: d :: more) = some ([c], d :: more) := by
    rw [Scan.symbol?, hlong]
    rcases hc with rfl | rfl <;> rfl
  have hnumber : ¬(c.isDigit || (c == '.' && (d :: more).head?.any Char.isDigit)) = true := by
    rcases hc with rfl | rfl
    · simp [hdigit rfl]
    · exact Bool.false_ne_true
  refine ⟨fun first => ?_, fun _ heq => ?_, c, [], rfl, ?_, ?_⟩
  · rw [List.singleton_append, Scan.lexeme?, if_neg hnumber, hsymbol]
    rcases hc with rfl | rfl <;> rfl
  · rcases hc with rfl | rfl <;> exact absurd heq (by decide)
  · rcases hc with rfl | rfl <;> rfl
  · rcases hc with rfl | rfl <;> decide

/-- Signs take nothing away from the pieces behind them. -/
theorem legible_sign {symbol : String} (h : symbol ∈ signs) :
    Legible rest (sign symbol :: pieces) ↔ Legible rest pieces :=
  and_iff_right (reads_sign h _)

/-- Legible pieces with others between them are legible. -/
theorem legible_joined {between : List Piece} {parts : List (List Piece)}
    (hbetween : ∀ rest, Legible rest between ∧ Separated (join between ++ rest))
    (hparts : ∀ part ∈ parts, ∀ rest, Separated rest → Legible rest part)
    (hrest : Separated rest) : Legible rest (joined between parts) := by
  have hbehind (others : List (List Piece))
      (hothers : ∀ part ∈ others, ∀ rest, Separated rest → Legible rest part) :
      Legible rest (others.flatMap fun part => between ++ part) ∧
        Separated (join (others.flatMap fun part => between ++ part) ++ rest) := by
    induction others with
    | nil => exact ⟨trivial, hrest⟩
    | cons part others ih =>
      obtain ⟨hpart, hothers⟩ := List.forall_mem_cons.1 hothers
      obtain ⟨hlegible, hseparated⟩ := ih hothers
      rw [List.flatMap_cons, List.append_assoc, join_append, List.append_assoc, legible_append,
        legible_append]
      exact ⟨⟨(hbetween _).1, hpart _ hseparated, hlegible⟩, (hbetween _).2⟩
  cases parts with
  | nil => trivial
  | cons part others =>
    obtain ⟨hpart, hothers⟩ := List.forall_mem_cons.1 hparts
    obtain ⟨hlegible, hseparated⟩ := hbehind others hothers
    rw [joined, legible_append]
    exact ⟨hpart _ hseparated, hlegible⟩

/-- A comma between types. -/
theorem comma_separates (rest : Text) :
    Legible rest [sign ",", blank] ∧ Separated (join [sign ",", blank] ++ rest) :=
  ⟨(legible_sign (by decide)).2 trivial, ',', _, rfl, by decide⟩

/-- The sign of a union or intersection between types. -/
theorem sign_separates {symbol : String} (h : symbol ∈ signs) (rest : Text) :
    Legible rest [blank, sign symbol, blank] ∧
      Separated (join [blank, sign symbol, blank] ++ rest) :=
  ⟨(legible_sign h).2 trivial, ' ', _, rfl, by decide⟩

/-- A dotted name is legible before what leaves a word. -/
theorem legible_dotted {name : Text} (hwords : ∀ part ∈ name.splitOn '.', IsWord part)
    (hrest : LeavesWord rest) : Legible rest (dotted name) := by
  rw [dotted]
  generalize name.splitOn '.' = parts at hwords
  have hdot {word : Text} (hword : IsWord word) (behind : Text) :
      ReadsBefore (word ++ behind) .symbol ['.'] := by
    obtain ⟨c, more, rfl, hstart⟩ := hword.exists_cons
    obtain ⟨-, hdigit, hsign⟩ := not_sign_of_isWordStart hstart
    have hc : c ≠ '.' := fun heq => hsign (heq ▸ List.mem_cons_self)
    exact reads_doubled (.inl rfl) hc (fun _ => hdigit) (more ++ behind)
  have hbehind (others : List Text) (hothers : ∀ part ∈ others, IsWord part) :
      Legible rest ((others.map fun part => [Piece.token .word part]).flatMap
          fun part => [sign "."] ++ part) ∧
        LeavesWord (join ((others.map fun part => [Piece.token .word part]).flatMap
          fun part => [sign "."] ++ part) ++ rest) := by
    induction others with
    | nil => exact ⟨trivial, hrest⟩
    | cons part others ih =>
      obtain ⟨hpart, hothers⟩ := List.forall_mem_cons.1 hothers
      obtain ⟨hlegible, hleaves⟩ := ih hothers
      have hfirst := hdot hpart (join ((others.map fun part => [Piece.token .word part]).flatMap
        fun part => [sign "."] ++ part) ++ rest)
      rw [← List.append_assoc] at hfirst
      refine ⟨⟨hfirst, hpart.reads hleaves, hlegible⟩, fun c hc => ?_⟩
      cases hc
      decide
  cases parts with
  | nil => trivial
  | cons part others =>
    obtain ⟨hpart, hothers⟩ := List.forall_mem_cons.1 hwords
    obtain ⟨hlegible, hleaves⟩ := hbehind others hothers
    exact ⟨hpart.reads hleaves, hlegible⟩

/-- A keyword is a word. -/
theorem isWord_keyword (keyword : Keyword) : IsWord keyword.word := by
  cases keyword <;> exact rfl

/-- A literal that can be printed is legible. -/
theorem legible_literal {literal : Literal} (h : literal.Printable) (hrest : Separated rest) :
    Legible rest (Piece.literal literal) := by
  have hword (text : String) (hword : IsWord text.toList) : Legible rest [word text] :=
    ⟨hword.reads hrest.leavesWord, trivial⟩
  cases literal with
  | string value => exact ⟨(isString_quote h.1 h.2).reads _, trivial⟩
  | number spelling =>
    obtain ⟨digits, hspelling, hdigits⟩ := h
    have hnumber : ReadsBefore rest .number digits := hdigits.reads hrest.leavesNumber
    obtain ⟨c, more, rfl, hstart⟩ := hdigits.exists_cons
    have hminus : c ≠ '-' := by
      rintro rfl
      exact absurd hstart (by simp)
    rcases hspelling with rfl | rfl
    · have hpieces : Piece.literal (.number (c :: more)) = [.token .number (c :: more)] :=
        Piece.number.eq_2 _ fun _ heq => hminus (List.cons.inj heq).1
      rw [hpieces]
      exact ⟨hnumber, trivial⟩
    · have hsign : ReadsBefore (c :: (more ++ rest)) .symbol ['-'] :=
        reads_doubled (.inr rfl) hminus (fun h => nomatch h) _
      have hrest : join [.token .number (c :: more)] ++ rest = c :: (more ++ rest) := by
        simp [join, Piece.text]
      exact ⟨by rw [hrest]; exact hsign, hnumber, trivial⟩
  | boolean value =>
    cases value
    · exact hword "false" rfl
    · exact hword "true" rfl

/-- The mark of a read-only member is legible before anything. -/
theorem legible_readonly (isReadonly : Bool) (rest : Text) :
    Legible rest (readonly isReadonly) := by
  cases isReadonly with
  | true => exact ⟨IsWord.reads rfl (Separated.leavesWord ⟨' ', _, rfl, by decide⟩), trivial⟩
  | false => trivial

/-- A property up to its type is legible before what separates. -/
theorem legible_head {head : PropertyHead} (h : head.Printable) (hrest : Separated rest) :
    Legible rest (Piece.head head) := by
  have hkey {rest : Text} (hrest : Separated rest) : Legible rest [key head.name] := by
    have hname := h.name
    split at hname
    · next hquoted =>
      rw [key, if_pos hquoted]
      exact ⟨hname.reads _, trivial⟩
    · next hquoted =>
      rw [key, if_neg hquoted]
      exact ⟨hname.reads hrest.leavesWord, trivial⟩
  rw [Piece.head, legible_append, legible_append]
  split
  · exact ⟨⟨legible_readonly _ _, hkey ⟨'?', _, rfl, by decide⟩⟩,
      (legible_sign (by decide)).2 trivial⟩
  · exact ⟨⟨legible_readonly _ _, hkey hrest⟩, trivial⟩

mutual

/-- A printable type is legible before what separates. -/
theorem legible_type {rest : Text} : (type : TypeExpr) → type.Printable → Separated rest →
    Legible rest type.pieces
  | .keyword keyword _, _, hrest => ⟨(isWord_keyword keyword).reads hrest.leavesWord, trivial⟩
  | .literal literal _, h, hrest => legible_literal h hrest
  | .reference name arguments _, h, hrest => by
    obtain ⟨hname, harguments⟩ := h
    have hall := legible_types arguments harguments
    rw [TypeExpr.pieces, legible_append]
    cases hparts : TypeExpr.allPieces arguments with
    | nil => exact ⟨legible_dotted hname.words hrest.leavesWord, trivial⟩
    | cons part parts =>
      rw [hparts] at hall
      have hbehind : Separated (join [sign ">"] ++ rest) := ⟨'>', _, rfl, by decide⟩
      refine ⟨legible_dotted hname.words (Separated.leavesWord ⟨'<', _, rfl, by decide⟩), ?_⟩
      rw [legible_append, legible_append]
      exact ⟨⟨(legible_sign (by decide)).2 trivial, legible_joined comma_separates hall hbehind⟩,
        (legible_sign (by decide)).2 trivial⟩
  | .array item _, h, _ => by
    rw [TypeExpr.pieces, legible_append]
    exact ⟨legible_type item h.2 ⟨'[', _, rfl, by decide⟩,
      (legible_sign (by decide)).2 ((legible_sign (by decide)).2 trivial)⟩
  | .tuple items _, h, _ => by
    have hbehind : Separated (join [sign "]"] ++ rest) := ⟨']', _, rfl, by decide⟩
    rw [TypeExpr.pieces, legible_append, legible_append]
    exact ⟨⟨(legible_sign (by decide)).2 trivial,
      legible_joined comma_separates (legible_types items h) hbehind⟩,
      (legible_sign (by decide)).2 trivial⟩
  | .union parts _, h, hrest =>
    legible_joined (sign_separates (by decide)) (legible_types parts h.2.2) hrest
  | .intersection parts _, h, hrest =>
    legible_joined (sign_separates (by decide)) (legible_types parts h.2.2) hrest
  | .object members _, h, _ => by
    rw [TypeExpr.pieces, legible_append, legible_append]
    exact ⟨⟨(legible_sign (by decide)).2 trivial, legible_members members h⟩,
      (legible_sign (by decide)).2 trivial⟩
  | .paren inner _, h, _ => by
    rw [TypeExpr.pieces, legible_append, legible_append]
    exact ⟨⟨(legible_sign (by decide)).2 trivial, legible_type inner h ⟨')', _, rfl, by decide⟩⟩,
      (legible_sign (by decide)).2 trivial⟩
  | .unsupported _, h, _ => absurd h id

/-- Printable types are legible before what separates. -/
theorem legible_types : (types : List TypeExpr) → TypeExpr.AllPrintable types →
    ∀ part ∈ TypeExpr.allPieces types, ∀ rest, Separated rest → Legible rest part
  | [], _ => fun _ h => nomatch h
  | type :: types, h =>
    List.forall_mem_cons.2 ⟨fun _ => legible_type type h.1, legible_types types h.2⟩

/-- Printable members are legible before anything. -/
theorem legible_members {rest : Text} : (members : List Member) → Member.AllPrintable members →
    Legible rest (Member.allPieces members)
  | [], _ => trivial
  | .property ⟨head, some type⟩ :: members, h => by
    obtain ⟨hhead, htype, hmembers⟩ := h
    have hbehind : Separated
        (join [sign ";"] ++ (join (Member.allPieces members) ++ rest)) := ⟨';', _, rfl, by decide⟩
    rw [Member.allPieces, Member.pieces, List.cons_append, Legible, legible_append, legible_append,
      legible_append, legible_append]
    exact ⟨⟨⟨⟨legible_head hhead ⟨':', _, rfl, by decide⟩, (legible_sign (by decide)).2 trivial⟩,
      legible_type type htype hbehind⟩, (legible_sign (by decide)).2 trivial⟩,
      legible_members members hmembers⟩
  | .property ⟨head, none⟩ :: members, h => by
    obtain ⟨hhead, hmembers⟩ := h
    rw [Member.allPieces, Member.pieces, List.cons_append, Legible, legible_append, legible_append]
    exact ⟨⟨legible_head hhead ⟨';', _, rfl, by decide⟩, (legible_sign (by decide)).2 trivial⟩,
      legible_members members hmembers⟩
  | .index keys value isReadonly _ :: members, h => by
    obtain ⟨hkeys, hvalue, hmembers⟩ := h
    rw [Member.allPieces, Member.pieces, List.cons_append, Legible, legible_append, legible_append,
      legible_append, legible_append, legible_append, legible_append]
    have hname (rest : Text) : Legible rest [sign "[", word "key", sign ":", blank] :=
      (legible_sign (by decide)).2
        ⟨IsWord.reads rfl (Separated.leavesWord ⟨':', _, rfl, by decide⟩),
          (legible_sign (by decide)).2 trivial⟩
    exact ⟨⟨⟨⟨⟨⟨legible_readonly isReadonly _, hname _⟩,
      legible_type keys hkeys ⟨']', _, rfl, by decide⟩⟩,
      (legible_sign (by decide)).2 ((legible_sign (by decide)).2 trivial)⟩,
      legible_type value hvalue ⟨';', _, rfl, by decide⟩⟩, (legible_sign (by decide)).2 trivial⟩,
      legible_members members hmembers⟩
  | .mapped _ :: _, h | .other _ :: _, h => absurd h id

end

end InterfaceSchema
