import InterfaceSchema.Proofs.Syntax.ReadingBack

/-!
# Operands are read back

Keywords, literals, names with their arguments, tuples and types between
parentheses are read back where they are written, given that their parts are.
-/

namespace InterfaceSchema

open Grammar Piece

variable {setting : Setting} {tokens rest : List Token} {depth : Nat} {token : Token}
  {text : Text} {ends : List String} {type : TypeExpr} {types : List TypeExpr} {span : Span}

/-- A token without comments before it is its text. -/
theorem Token.compact_of_face {kind : TokenKind} (h : token.face = (kind, text, .none)) :
    token.compact = text := by
  obtain ⟨_, text, start, gap⟩ := token
  cases h
  rfl

/-- A token with the face of a word is one of some words or is not. -/
theorem isOneOf_of_face (h : token.face = (.word, text, .none)) (words : List String) :
    isOneOf words token = words.any fun word => text == word.toList := by
  rw [isOneOf]
  congr
  funext word
  exact Token.isWord_of_face h word

/-- A word that names no other kind of type is read as a name. -/
theorem readPrimary_word (h : token.face = (.word, text, .none))
    (hwords : (typeWords.any fun word => text == word.toList) = false) :
    readPrimary (depth + 1) setting (token :: rest) =
      readReference depth setting (token :: rest) := by
  have hkind := Token.kind_of_face h
  have hword (word : String) (hmem : word ∈ typeWords) : token.isWord word = false := by
    rw [Token.isWord_of_face h]
    exact Bool.eq_false_iff.2 (List.any_eq_false.1 hwords word hmem)
  unfold readPrimary
  dsimp only
  rw [hkind]
  dsimp only
  rw [hword "true" (by decide), hword "false" (by decide), hword "this" (by decide),
    hword "unique" (by decide), hword "keyof" (by decide), hword "typeof" (by decide),
    hword "import" (by decide)]
  rfl

/-- No dot goes on with a name before another sign. -/
theorem readDotted_done (name : Text) (stop : Nat) (h : OpensWith ends rest) (hends : "." ∉ ends) :
    readDotted name stop rest = (name, stop, rest) := by
  obtain ⟨dot, behind, rfl⟩ := h.exists_cons
  cases behind with
  | nil => rfl
  | cons part behind =>
    rw [readDotted, h.isSymbol hends]
    rfl

/-- The further parts of a dotted name are read back. -/
theorem readDotted_parts {parts : List Text} (name : Text) (stop : Nat)
    (h : Spelled (parts.flatMap fun part => [sign ".", .token .word part]) tokens)
    (hrest : OpensWith ends rest) (hends : "." ∉ ends) : ∃ last,
      readDotted name stop (tokens ++ rest) =
        (name ++ parts.flatMap fun part => '.' :: part, last, rest) := by
  induction parts generalizing tokens name stop with
  | nil =>
    obtain rfl := h.eq_nil
    refine ⟨stop, ?_⟩
    rw [List.nil_append, readDotted_done name stop hrest hends, List.flatMap_nil, List.append_nil]
  | cons part parts ih =>
    rw [List.flatMap_cons, List.cons_append, List.cons_append, List.nil_append] at h
    obtain ⟨dot, behind, rfl, hdot, hbehind⟩ := h.exists_token
    obtain ⟨word, behind, rfl, hword, hparts⟩ := hbehind.exists_token
    have hkind := Token.kind_of_face hword
    obtain ⟨last, hlast⟩ := ih (name ++ (dot.compact ++ word.compact)) word.stop hparts
    refine ⟨last, ?_⟩
    rw [List.cons_append, List.cons_append, readDotted, Token.isSymbol_of_face hdot, hkind]
    rw [Token.compact_of_face hdot, Token.compact_of_face hword] at hlast ⊢
    refine hlast.trans ?_
    rw [List.flatMap_cons, List.append_assoc]
    rfl

/-- A name is made up of its parts with dots between them. -/
theorem splitOn_dots {name part : Text} {parts : List Text}
    (h : name.splitOn '.' = part :: parts) :
    (part ++ parts.flatMap fun part => '.' :: part) = name := by
  have hjoined (part : Text) (parts : List Text) :
      ['.'].intercalate (part :: parts) = part ++ parts.flatMap fun part => '.' :: part := by
    induction parts generalizing part with
    | nil => simp
    | cons next parts ih =>
      rw [List.intercalate_cons_cons, ih, List.flatMap_cons, List.append_assoc]
      rfl
  rw [← hjoined, ← h, List.intercalate_splitOn]

/-- A name without arguments is read before a separator. -/
theorem readNamed_bare {name : Text} {stop : Nat} (hkind : token.kind = .word)
    (hdotted : readDotted token.text token.stop tokens = (name, stop, rest))
    (hrest : OpensWith separators rest) :
    readNamed (depth + 1) setting (token :: tokens) =
      match Keyword.ofWord? name with
      | some keyword => some (.keyword keyword ⟨token.start, stop⟩, rest)
      | none => some (.reference name [] ⟨token.start, stop⟩, rest) := by
  unfold readNamed
  dsimp only
  rw [if_pos hkind, hdotted]
  dsimp only
  rw [takeSymbol_eq_none hrest (by decide)]
  rfl

/-- A keyword is read back. -/
theorem reads_keyword (keyword : Keyword) :
    ReadsBack readPrimary 5 separators (.keyword keyword span) := by
  intro setting tokens rest depth hwritten hrest hdepth
  obtain ⟨token, behind, rfl, hface, hnone⟩ := hwritten.exists_token
  obtain rfl := hnone.spelled.eq_nil
  rw [List.length_singleton] at hdepth
  obtain ⟨depth, rfl⟩ := Nat.exists_eq_add_of_le' (by omega : 3 ≤ depth)
  have hkind := Token.kind_of_face hface
  have htext := Token.text_of_face hface
  have hwords : (typeWords.any fun word => keyword.word == word.toList) = false := by
    cases keyword <;> decide
  refine ⟨.keyword keyword token.span, ?_, rfl⟩
  rw [List.singleton_append, readPrimary_word hface hwords]
  unfold readReference
  dsimp only
  rw [isOneOf_of_face hface, isOneOf_of_face hface, htext, Keyword.ofWord?_word, hwords,
    readNamed_bare hkind (readDotted_done _ _ hrest (by decide)) hrest, htext,
    Keyword.ofWord?_word]
  exact ite_self _

/-- A string or number is read as what it stands for. -/
theorem readPrimary_literal {kind : TokenKind} {literal : Literal}
    (h : token.face = (kind, text, .none))
    (hliteral : (kind = .string ∧ literal = .string (Text.unquote text)) ∨
      (kind = .number ∧ literal = .number text)) :
    readPrimary (depth + 1) setting (token :: rest) =
      some (.literal literal token.span, rest) := by
  obtain ⟨_, text, start, gap⟩ := token
  cases h
  rcases hliteral with ⟨rfl, rfl⟩ | ⟨rfl, rfl⟩
  · unfold readPrimary
    rfl
  · unfold readPrimary
    rfl

/-- A minus sign is read with the number behind it. -/
theorem readPrimary_minus {digits : Token} (h : token.face = (.symbol, "-".toList, .none))
    (hdigits : digits.face = (.number, text, .none)) :
    readPrimary (depth + 1) setting (token :: digits :: rest) =
      some (.literal (.number ('-' :: text)) ⟨token.start, digits.stop⟩, rest) := by
  have hcompact := Token.compact_of_face hdigits
  have hkind := Token.kind_of_face hdigits
  obtain ⟨_, _, start, gap⟩ := token
  cases h
  unfold readPrimary
  dsimp only
  rw [if_pos hkind, hcompact]
  rfl

/-- A boolean is read as the word it is. -/
theorem readPrimary_boolean (value : Bool)
    (h : token.face = (.word, (if value then "true" else "false").toList, .none)) :
    readPrimary (depth + 1) setting (token :: rest) =
      some (.literal (.boolean value) token.span, rest) := by
  obtain ⟨_, text, start, gap⟩ := token
  cases h
  cases value <;> unfold readPrimary <;> rfl

/-- A literal is read back. -/
theorem reads_literal (literal : Literal) :
    ReadsBack readPrimary 5 separators (.literal literal span) := by
  intro setting tokens rest depth hwritten hrest hdepth
  have hone {kind : TokenKind} {text : Text}
      (hwritten : Printed setting [.token kind text] tokens rest)
      (hliteral : ∀ {depth token}, Token.face token = (kind, text, .none) →
        readPrimary (depth + 1) setting (token :: rest) =
          some (.literal literal token.span, rest)) :
      ∃ found, readPrimary depth setting (tokens ++ rest) = some (found, rest) ∧
        found.unplaced = (TypeExpr.literal literal span).unplaced := by
    obtain ⟨token, behind, rfl, hface, hnone⟩ := hwritten.exists_token
    obtain rfl := hnone.spelled.eq_nil
    rw [List.length_singleton] at hdepth
    obtain ⟨depth, rfl⟩ := Nat.exists_eq_add_of_le' (by omega : 1 ≤ depth)
    exact ⟨.literal literal token.span, hliteral hface, rfl⟩
  cases literal with
  | string value =>
    refine hone hwritten fun hface => readPrimary_literal hface (.inl ⟨rfl, ?_⟩)
    rw [Text.unquote_quote]
  | number spelling =>
    rw [TypeExpr.pieces, Piece.literal] at hwritten
    unfold Piece.number at hwritten
    split at hwritten
    · obtain ⟨minus, behind, rfl, hminus, hbehind⟩ := hwritten.exists_token
      obtain ⟨digits, behind, rfl, hdigits, hnone⟩ := hbehind.exists_token
      obtain rfl := hnone.spelled.eq_nil
      rw [List.length_cons, List.length_singleton] at hdepth
      obtain ⟨depth, rfl⟩ := Nat.exists_eq_add_of_le' (by omega : 1 ≤ depth)
      exact ⟨_, readPrimary_minus hminus hdigits, rfl⟩
    · exact hone hwritten fun hface => readPrimary_literal hface (.inr ⟨rfl, rfl⟩)
  | boolean value =>
    cases value
    · exact hone hwritten fun hface => readPrimary_boolean false hface
    · exact hone hwritten fun hface => readPrimary_boolean true hface

/-- Types with commas between them and a sign behind them are the first one
before the sign, or before a comma and the others. -/
theorem exists_commas {closing : String}
    (h : Printed setting
      (joined [sign ",", blank] (TypeExpr.allPieces (type :: types)) ++ [sign closing]) tokens
      rest) :
    ∃ front behind, tokens = front ++ behind ∧ Printed setting type.pieces front (behind ++ rest) ∧
      ((types = [] ∧ ∃ last, behind = [last] ∧ last.isSymbol closing = true) ∨
        (types ≠ [] ∧ ∃ comma more, behind = comma :: more ∧ comma.isSymbol "," = true ∧
          Printed setting (joined [sign ",", blank] (TypeExpr.allPieces types) ++ [sign closing])
            more rest)) := by
  rw [joined_cons, List.append_assoc] at h
  obtain ⟨front, behind, rfl, hfront, hbehind⟩ := h.exists_append
  refine ⟨front, behind, rfl, hfront, ?_⟩
  cases types with
  | nil =>
    obtain ⟨last, behind, rfl, hlast, hnone⟩ := hbehind.exists_token
    obtain rfl := hnone.spelled.eq_nil
    exact .inl ⟨rfl, last, rfl, Token.isSymbol_of_face hlast⟩
  | cons next types =>
    rw [List.flatMap_cons, List.append_assoc, List.append_assoc, ← List.append_assoc next.pieces,
      ← joined_cons] at hbehind
    obtain ⟨comma, more, rfl, hcomma, hmore⟩ := hbehind.exists_token
    exact .inr ⟨List.cons_ne_nil _ _, comma, more, rfl, Token.isSymbol_of_face hcomma,
      hmore.of_blank⟩

/-- Types with commas between them begin as the first one does. -/
theorem begins_commas {closing : String} (hclosing : closing ∈ closers)
    (htypes : ∀ type ∈ types, ReadAsPrinted type) (hne : types ≠ [])
    (h : Printed setting
      (joined [sign ",", blank] (TypeExpr.allPieces types) ++ [sign closing]) tokens rest) :
    Begins (tokens ++ rest) := by
  obtain ⟨type, types, rfl⟩ := List.exists_cons_of_ne_nil hne
  have hleading : type.Leading := (htypes type List.mem_cons_self).leading
  obtain ⟨front, behind, rfl, hfront, hbehind⟩ := exists_commas h
  rw [List.append_assoc]
  refine hleading hfront.spelled ?_
  rcases hbehind with ⟨-, last, rfl, hlast⟩ | ⟨-, comma, more, rfl, hcomma, -⟩
  · have hsubset : closers ⊆ separators := by decide
    exact ⟨last, rest, rfl, closing, hsubset hclosing, hlast⟩
  · exact ⟨comma, more ++ rest, rfl, ",", by decide, hcomma⟩

/-- What a type does not begin with is not taken before one. -/
theorem Begins.takeSymbol {symbol : String} (h : Begins tokens)
    (hsymbol : symbol ∈ ["|", "&", ",", "]", ">", "..."]) :
    Grammar.takeSymbol symbol tokens = none := by
  obtain ⟨first, second, behind, rfl, hleads⟩ := h
  rw [Grammar.takeSymbol, hleads.symbol symbol hsymbol]
  rfl

/-- A sign at the front is taken. -/
theorem takeSymbol_eq_some {symbol : String} (h : token.isSymbol symbol = true)
    (tokens : List Token) : takeSymbol symbol (token :: tokens) = some (token, tokens) := by
  rw [takeSymbol, h]
  rfl

/-- A sign is not taken for another one. -/
theorem takeSymbol_other {symbol other : String} (h : token.isSymbol symbol = true)
    (hne : symbol ≠ other) (tokens : List Token) : takeSymbol other (token :: tokens) = none := by
  rw [takeSymbol, Token.isSymbol_other h hne]
  rfl

/-- Type arguments are read back. -/
theorem reads_arguments (hne : types ≠ [])
    (htypes : ∀ type ∈ types, ReadAsPrinted type)
    (hwritten : Printed setting
      (joined [sign ",", blank] (TypeExpr.allPieces types) ++ [sign ">"]) tokens rest)
    (hdepth : 16 * tokens.length ≤ depth) : ∃ found closing,
      readArguments depth setting (tokens ++ rest) = some (found, closing, rest) ∧
        TypeExpr.allUnplaced found = TypeExpr.allUnplaced types := by
  induction types generalizing tokens depth with
  | nil => exact absurd rfl hne
  | cons type types ih =>
    obtain ⟨htype, htypes⟩ := List.forall_mem_cons.1 htypes
    obtain ⟨front, behind, rfl, hfront, hbehind⟩ := exists_commas hwritten
    rw [List.length_append] at hdepth
    rcases hbehind with ⟨rfl, closing, rfl, hclosing⟩ | ⟨hne, comma, more, rfl, hcomma, hmore⟩
    · rw [List.length_singleton] at hdepth
      obtain ⟨depth, rfl⟩ := Nat.exists_eq_add_of_le' (by omega : 1 ≤ depth)
      obtain ⟨found, hfound, hunplaced⟩ :=
        htype.type hfront ⟨closing, rest, rfl, ">", by decide, hclosing⟩ (by omega : _ ≤ depth + 0)
      refine ⟨[found], closing, ?_, congrArg (fun type => [type]) hunplaced⟩
      rw [readArguments, List.append_assoc, hfound]
      dsimp only [Option.bind_eq_bind, Option.bind_some]
      rw [List.singleton_append, takeSymbol_eq_some hclosing]
    · rw [List.length_cons] at hdepth
      obtain ⟨depth, rfl⟩ := Nat.exists_eq_add_of_le' (by omega : 1 ≤ depth)
      obtain ⟨found, hfound, hunplaced⟩ :=
        htype.type hfront ⟨comma, more ++ rest, rfl, ",", by decide, hcomma⟩
          (by omega : _ ≤ depth + 0)
      obtain ⟨others, closing, hothers, hall⟩ := ih hne htypes hmore (by omega : _ ≤ depth)
      have hbegins := begins_commas (by decide) htypes hne hmore
      refine ⟨found :: others, closing, ?_, ?_⟩
      · rw [readArguments, List.append_assoc, hfound]
        dsimp only [Option.bind_eq_bind, Option.bind_some]
        rw [List.cons_append, takeSymbol_other hcomma (by decide)]
        dsimp only
        rw [takeSymbol_eq_some hcomma]
        dsimp only [Option.bind_some]
        rw [hbegins.takeSymbol (by decide), hothers]
        rfl
      · rw [TypeExpr.allUnplaced, TypeExpr.allUnplaced, hunplaced, hall]

/-- A name with or without arguments is read back. -/
theorem reads_reference {name : Text} (hname : IsTypeName name)
    (htypes : ∀ type ∈ types, ReadAsPrinted type) :
    ReadsBack readPrimary 5 separators (.reference name types span) := by
  intro setting tokens rest depth hwritten hrest hdepth
  obtain ⟨part, parts, hparts, hdotted⟩ := exists_dotted name
  rw [TypeExpr.pieces, hdotted, List.cons_append] at hwritten
  obtain ⟨token, behind, rfl, hface, hbehind⟩ := hwritten.exists_token
  obtain ⟨front, last, rfl, hfront, hlast⟩ := hbehind.exists_append
  have hkind := Token.kind_of_face hface
  have htext := Token.text_of_face hface
  have hother (words : List String) (hwords : words ⊆ plainWords ++ typeWords) :
      (words.any fun word => part == word.toList) = false := by
    refine List.any_eq_false.2 fun word hword => ?_
    have hne := hname.first part (by rw [hparts]; rfl) word (hwords hword)
    exact fun heq => hne (beq_iff_eq.1 heq)
  have hdepth : 16 * last.length + 16 ≤ depth + 5 := by
    rw [List.length_cons, List.length_append] at hdepth
    omega
  obtain ⟨depth, rfl⟩ := Nat.exists_eq_add_of_le' (by omega : 3 ≤ depth)
  have hstep : readPrimary (depth + 3) setting (token :: (front ++ last) ++ rest) =
      readNamed (depth + 1) setting (token :: (front ++ (last ++ rest))) := by
    rw [List.cons_append, List.append_assoc,
      readPrimary_word hface (hother _ (List.subset_append_right _ _))]
    unfold readReference
    dsimp only
    rw [isOneOf_of_face hface, hother _ (List.subset_append_left _ _), isOneOf_of_face hface,
      hother _ (List.subset_append_right _ _)]
    rfl
  rw [hstep]
  cases types with
  | nil =>
    obtain rfl := hlast.spelled.eq_nil
    obtain ⟨stop, hread⟩ := readDotted_parts token.text token.stop hfront.spelled hrest (by decide)
    rw [htext, splitOn_dots hparts, ← htext] at hread
    refine ⟨.reference name [] ⟨token.start, stop⟩, ?_, rfl⟩
    rw [List.nil_append, readNamed_bare hkind hread hrest, hname.other]
  | cons type types =>
    have hopens : OpensWith ["<"] (last ++ rest) :=
      opens_of_spelled hlast.spelled List.mem_cons_self rest
    obtain ⟨stop, hread⟩ := readDotted_parts token.text token.stop hfront.spelled hopens (by decide)
    rw [htext, splitOn_dots hparts, ← htext] at hread
    obtain ⟨opening, behind, rfl, hopening, hbehind⟩ := hlast.exists_token
    rw [List.length_cons] at hdepth
    obtain ⟨found, closing, hfound, hall⟩ :=
      reads_arguments (List.cons_ne_nil _ _) htypes hbehind.inside (by omega : _ ≤ depth)
    refine ⟨.reference name found ⟨token.start, closing.stop⟩, ?_, ?_⟩
    · unfold readNamed
      dsimp only
      rw [if_pos hkind, hread]
      dsimp only
      rw [List.cons_append, takeSymbol_eq_some (Token.isSymbol_of_face hopening),
        Option.bind_some, hfound]
    · rw [TypeExpr.unplaced, TypeExpr.unplaced, hall]

/-- An element of a tuple is read back: it has no label, and no mark follows
it. -/
theorem reads_item (h : ReadAsPrinted type) (hwritten : Printed setting type.pieces tokens rest)
    (hrest : OpensWith closers rest) (hdepth : 16 * tokens.length + 1 ≤ depth) :
    ∃ found, readItem depth setting (tokens ++ rest) = some (found, rest) ∧
      found.unplaced = type.unplaced := by
  obtain ⟨depth, rfl⟩ := Nat.exists_eq_add_of_le' (by omega : 1 ≤ depth)
  obtain ⟨found, hfound, hunplaced⟩ := h.type hwritten hrest (by omega : _ ≤ depth + 0)
  have hsubset : closers ⊆ separators := by decide
  obtain ⟨first, second, behind, heq, hleads⟩ := h.leading hwritten.spelled (hrest.mono hsubset)
  have hlabel (mark : String) (hmark : mark ∈ [":", "?"]) :
      (first.kind == .word && second.isSymbol mark) = false := by
    by_cases hkind : first.kind = .word
    · rw [hleads.label hkind mark hmark, Bool.and_false]
    · rw [beq_false_of_ne hkind, Bool.false_and]
  refine ⟨found, ?_, hunplaced⟩
  rw [heq] at hfound ⊢
  unfold readItem
  dsimp only
  rw [hleads.symbol "..." (by decide), hlabel ":" (by decide), hlabel "?" (by decide), hfound]
  dsimp only [Option.bind_eq_bind, Option.bind_some]
  rw [takeSymbol_eq_none hrest (by decide)]
  rfl

/-- The elements of a tuple are read back. -/
theorem reads_items (htypes : ∀ type ∈ types, ReadAsPrinted type)
    (hwritten : Printed setting
      (joined [sign ",", blank] (TypeExpr.allPieces types) ++ [sign "]"]) tokens rest)
    (hdepth : 16 * tokens.length ≤ depth) : ∃ found closing,
      readItems depth setting (tokens ++ rest) = some (found, closing, rest) ∧
        TypeExpr.allUnplaced found = TypeExpr.allUnplaced types := by
  induction types generalizing tokens depth with
  | nil =>
    obtain ⟨closing, behind, rfl, hface, hnone⟩ := hwritten.exists_token
    obtain rfl := hnone.spelled.eq_nil
    have hclosing := Token.isSymbol_of_face hface
    rw [List.length_singleton] at hdepth
    obtain ⟨depth, rfl⟩ := Nat.exists_eq_add_of_le' (by omega : 1 ≤ depth)
    refine ⟨[], closing, ?_, rfl⟩
    rw [readItems, List.singleton_append, takeSymbol_other hclosing (by decide), Option.map_none,
      Option.getD_none, takeSymbol_eq_some hclosing]
  | cons type types ih =>
    have hfirst := begins_commas (by decide) htypes (List.cons_ne_nil _ _) hwritten
    obtain ⟨htype, htypes⟩ := List.forall_mem_cons.1 htypes
    obtain ⟨front, behind, rfl, hfront, hbehind⟩ := exists_commas hwritten
    have hleading : type.Leading := htype.leading
    have hpos := List.length_pos_iff.2 (hleading.ne_nil hfront.spelled)
    rw [List.length_append] at hdepth
    obtain ⟨depth, rfl⟩ := Nat.exists_eq_add_of_le' (by omega : 1 ≤ depth)
    rw [readItems, hfirst.takeSymbol (by decide), Option.map_none, Option.getD_none,
      hfirst.takeSymbol (by decide), List.append_assoc]
    rcases hbehind with ⟨rfl, closing, rfl, hclosing⟩ | ⟨hne, comma, more, rfl, hcomma, hmore⟩
    · rw [List.length_singleton] at hdepth
      obtain ⟨found, hfound, hunplaced⟩ :=
        reads_item htype hfront ⟨closing, rest, rfl, "]", by decide, hclosing⟩
          (by omega : _ ≤ depth)
      refine ⟨[found], closing, ?_, congrArg (fun type => [type]) hunplaced⟩
      rw [hfound]
      dsimp only [Option.bind_eq_bind, Option.bind_some]
      rw [List.singleton_append, takeSymbol_other hclosing (by decide),
        takeSymbol_eq_some hclosing]
      rfl
    · rw [List.length_cons] at hdepth
      obtain ⟨found, hfound, hunplaced⟩ :=
        reads_item htype hfront ⟨comma, more ++ rest, rfl, ",", by decide, hcomma⟩
          (by omega : _ ≤ depth)
      obtain ⟨others, closing, hothers, hall⟩ := ih htypes hmore (by omega : _ ≤ depth)
      have hnext : ((more ++ rest).head?.any fun next => next.isSymbol ",") = false := by
        obtain ⟨first, second, last, heq, hleads⟩ := begins_commas (by decide) htypes hne hmore
        rw [heq]
        exact hleads.symbol "," (by decide)
      refine ⟨found :: others, closing, ?_, ?_⟩
      · rw [hfound]
        dsimp only [Option.bind_eq_bind, Option.bind_some]
        rw [List.cons_append, takeSymbol_eq_some hcomma]
        dsimp only
        rw [hnext, hothers]
        rfl
      · rw [TypeExpr.allUnplaced, TypeExpr.allUnplaced, hunplaced, hall]

/-- A bracket opens a tuple. -/
theorem readPrimary_bracket (h : token.isSymbol "[" = true) :
    readPrimary (depth + 1) setting (token :: rest) =
      (readItems depth setting.inside rest).bind fun (items, closing, rest) =>
        some (.tuple items ⟨token.start, closing.stop⟩, rest) := by
  unfold readPrimary
  dsimp only
  rw [Token.kind_of_isSymbol h]
  dsimp only
  rw [Token.isSymbol_other h (by decide), h]
  rfl

/-- A parenthesis opens a type. -/
theorem readPrimary_paren (h : token.isSymbol "(" = true) :
    readPrimary (depth + 1) setting (token :: rest) =
      (readType depth setting.inside rest).bind fun (inner, rest) =>
        (takeSymbol ")" rest).bind fun (closing, rest) =>
          some (.paren inner ⟨token.start, closing.stop⟩, rest) := by
  unfold readPrimary
  dsimp only
  rw [Token.kind_of_isSymbol h]
  dsimp only
  rw [h]
  rfl

/-- A tuple is read back. -/
theorem reads_tuple (htypes : ∀ type ∈ types, ReadAsPrinted type) :
    ReadsBack readPrimary 5 separators (.tuple types span) := by
  intro setting tokens rest depth hwritten hrest hdepth
  rw [TypeExpr.pieces, List.append_assoc] at hwritten
  obtain ⟨token, behind, rfl, hface, hbehind⟩ := hwritten.exists_token
  rw [List.length_cons] at hdepth
  obtain ⟨depth, rfl⟩ := Nat.exists_eq_add_of_le' (by omega : 1 ≤ depth)
  obtain ⟨found, closing, hfound, hall⟩ :=
    reads_items htypes hbehind.inside (by omega : _ ≤ depth)
  refine ⟨.tuple found ⟨token.start, closing.stop⟩, ?_, ?_⟩
  · rw [List.cons_append, readPrimary_bracket (Token.isSymbol_of_face hface), hfound]
    rfl
  · rw [TypeExpr.unplaced, TypeExpr.unplaced, hall]

/-- A type between parentheses is read back. -/
theorem reads_paren (h : ReadAsPrinted type) :
    ReadsBack readPrimary 5 separators (.paren type span) := by
  intro setting tokens rest depth hwritten hrest hdepth
  rw [TypeExpr.pieces, List.append_assoc, List.singleton_append] at hwritten
  obtain ⟨token, behind, rfl, hface, hbehind⟩ := hwritten.exists_token
  obtain ⟨front, last, rfl, hfront, hlast⟩ := hbehind.exists_append
  obtain ⟨closing, last, rfl, hclosing, hnone⟩ := hlast.exists_token
  obtain rfl := hnone.spelled.eq_nil
  have hclosing := Token.isSymbol_of_face hclosing
  rw [List.length_cons, List.length_append, List.length_singleton] at hdepth
  obtain ⟨depth, rfl⟩ := Nat.exists_eq_add_of_le' (by omega : 1 ≤ depth)
  obtain ⟨found, hfound, hunplaced⟩ :=
    h.type hfront.inside ⟨closing, rest, rfl, ")", by decide, hclosing⟩ (by omega : _ ≤ depth + 0)
  refine ⟨.paren found ⟨token.start, closing.stop⟩, ?_, ?_⟩
  · rw [List.cons_append, readPrimary_paren (Token.isSymbol_of_face hface), List.append_assoc,
      hfound]
    dsimp only [Option.bind_some]
    rw [List.singleton_append, takeSymbol_eq_some hclosing]
    rfl
  · rw [TypeExpr.unplaced, TypeExpr.unplaced, hunplaced]

end InterfaceSchema
