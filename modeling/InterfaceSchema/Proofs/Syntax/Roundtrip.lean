import InterfaceSchema.Proofs.Syntax.ReadingMembers
import InterfaceSchema.Syntax.Source

/-!
# Reading undoes printing

Every printable type is read as printed, by recursion on the type. The source
that gives a name to the type is scanned as the tokens of its pieces, none of
which is an arrow, a template or the start of a regular expression; so the
source is read as one alias for the type, up to the places.
-/

namespace InterfaceSchema

open Grammar Piece

/-- A printable type that is read back by itself is read as printed. -/
theorem ReadAsPrinted.of_primary {type : TypeExpr} (hprintable : type.Printable)
    (h : ReadsBack readPrimary 5 separators type) : ReadAsPrinted type := by
  have hleading : type.Leading := begins_type type hprintable
  exact .of_operand hleading (readsOperand_of_primary hleading h)

mutual

/-- Printable types are read as printed. -/
theorem readAsPrinted : (type : TypeExpr) → type.Printable → ReadAsPrinted type
  | .keyword keyword _, h => .of_primary h (reads_keyword keyword)
  | .literal literal _, h => .of_primary h (reads_literal literal)
  | .reference _ arguments _, h =>
    .of_primary h (reads_reference h.1 (allReadAsPrinted arguments h.2))
  | .array item _, h =>
    have hleading : (TypeExpr.array item _).Leading := begins_type _ h
    .array_of hleading h.1 (readAsPrinted item h.2)
  | .tuple items _, h => .of_primary h (reads_tuple (allReadAsPrinted items h))
  | .union parts _, h =>
    have hleading : (TypeExpr.union parts _).Leading := begins_type _ h
    .union_of h.1 hleading h.2.1 (allReadAsPrinted parts h.2.2)
  | .intersection parts _, h =>
    have hleading : (TypeExpr.intersection parts _).Leading := begins_type _ h
    .intersection_of h.1 hleading h.2.1 (allReadAsPrinted parts h.2.2)
  | .object members _, h => .of_primary h (reads_object h (membersRead members h))
  | .paren inner _, h => .of_primary h (reads_paren (readAsPrinted inner h))
  | .unsupported _, h => absurd h id

/-- All printable types are read as printed. -/
theorem allReadAsPrinted : (types : List TypeExpr) → TypeExpr.AllPrintable types →
    ∀ type ∈ types, ReadAsPrinted type
  | [], _ => fun _ h => nomatch h
  | type :: types, h =>
    List.forall_mem_cons.2 ⟨readAsPrinted type h.1, allReadAsPrinted types h.2⟩

/-- All printable members are read back. -/
theorem membersRead : (members : List Member) → Member.AllPrintable members →
    ∀ member ∈ members, member.Leading ∧ ReadsBackMember member
  | [], _ => fun _ h => nomatch h
  | .property ⟨_, some type⟩ :: members, h =>
    List.forall_mem_cons.2 ⟨⟨leading_property _, reads_property h.1 (readAsPrinted type h.2.1)⟩,
      membersRead members h.2.2⟩
  | .property ⟨_, none⟩ :: members, h =>
    List.forall_mem_cons.2 ⟨⟨leading_property _, reads_untyped h.1⟩, membersRead members h.2⟩
  | .index key value _ _ :: members, h =>
    List.forall_mem_cons.2 ⟨⟨leading_index .., reads_index (readAsPrinted key h.1)
      (readAsPrinted value h.2.1)⟩, membersRead members h.2.2⟩
  | .mapped _ :: _, h | .other _ :: _, h => absurd h id

end

section Scanned

variable {rest text : Text} {pieces : List Piece} {tokens more : List Token} {token : Token}

/-- Each of legible pieces is read before some text. -/
theorem Legible.exists_readsBefore {kind : TokenKind} (h : Legible rest pieces)
    (hmem : .token kind text ∈ pieces) : ∃ behind, ReadsBefore behind kind text := by
  induction pieces with
  | nil => exact nomatch hmem
  | cons piece pieces ih =>
    rcases List.mem_cons.1 hmem with rfl | hbehind
    · exact ⟨_, h.1⟩
    · cases piece with
      | blank => exact ih h hbehind
      | token _ _ => exact ih h.2 hbehind

/-- A token is spelled by one of the pieces. -/
theorem Spelled.mem (h : Spelled pieces tokens) (hmem : token ∈ tokens) :
    .token token.kind token.text ∈ pieces := by
  have hface : token.face ∈ pieces.filterMap Piece.face? := by
    rw [← h]
    exact List.mem_map_of_mem hmem
  obtain ⟨piece, hpiece, hsome⟩ := List.mem_filterMap.1 hface
  cases piece with
  | blank => cases hsome
  | token kind text =>
    obtain ⟨hkind, htext, -⟩ : kind = token.kind ∧ text = token.text ∧ Gap.none = token.gap := by
      simpa [Piece.face?, Token.face] using hsome
    rw [← hkind, ← htext]
    exact hpiece

/-- Legible pieces have at most one token for each character. -/
theorem length_le_of_legible (h : Legible rest pieces) (hspelled : Spelled pieces tokens) :
    tokens.length ≤ (join pieces).length := by
  induction pieces generalizing tokens with
  | nil =>
    obtain rfl := hspelled.eq_nil
    exact Nat.le_refl _
  | cons piece pieces ih =>
    cases piece with
    | blank => exact Nat.le_succ_of_le (ih h hspelled)
    | token kind text =>
      obtain ⟨token, behind, rfl, -, hbehind⟩ := hspelled.exists_token
      obtain ⟨c, more, rfl, -⟩ := h.1.head
      have hle := ih h.2 hbehind
      rw [join, List.flatMap_cons, List.length_append, List.length_cons, Piece.text,
        List.length_cons]
      rw [join] at hle
      omega

/-- Placed tokens stand where they start. -/
theorem Placed.stands {source : Text} {start : Nat} (h : Placed source start tokens)
    (hmem : token ∈ tokens) : Stands source token.text token.start := by
  induction tokens generalizing start with
  | nil => exact nomatch hmem
  | cons first tokens ih =>
    rcases List.mem_cons.1 hmem with rfl | hmem
    · exact h.1.2
    · exact ih h.2 hmem

/-- Placed tokens of legible pieces are tame. -/
theorem tame_of_legible {source : Text} {start : Nat} (h : Legible rest pieces)
    (hspelled : Spelled pieces tokens) (hplaced : Placed source start (tokens ++ more)) :
    AllTame source tokens := by
  intro token htoken
  obtain ⟨behind, hreads⟩ := h.exists_readsBefore (hspelled.mem htoken)
  obtain ⟨c, left, htext, -, hc⟩ := hreads.head
  obtain ⟨before, after, rfl, hstart⟩ := hplaced.stands (List.mem_append_left more htoken)
  have hslash : c ≠ '/' := fun heq => hc (heq ▸ List.mem_cons_self)
  have hquote : c ≠ '`' := fun heq => hc (heq ▸ List.mem_cons_of_mem _ List.mem_cons_self)
  refine ⟨Bool.eq_false_iff.2 fun hsymbol => ?_, Bool.eq_false_iff.2 fun hsymbol => ?_, ?_⟩
  · rw [Token.isSymbol, Bool.and_eq_true, beq_iff_eq, beq_iff_eq] at hsymbol
    exact hreads.arrow hsymbol.1 hsymbol.2
  · rw [Token.isSymbol, Bool.and_eq_true, beq_iff_eq, beq_iff_eq, htext] at hsymbol
    exact hquote (List.cons.inj hsymbol.2).1
  · rw [← hstart, Text.dropBytes_byteLength_append, htext, List.cons_append]
    unfold Scan.regex?
    split
    · next heq => exact absurd (List.cons.inj heq).1 hslash
    · rfl

end Scanned

section Statements

variable {setting : Setting} {depth start : Nat} {word name equals semicolon finish : Token}
  {tokens rest : List Token} {type : TypeExpr}

/-- An alias without parameters is read with its type and the semicolon. -/
theorem readAlias_eq (hword : word.isWord "type" = true) (hname : name.kind = .word)
    (hline : name.endsType = false) (hequals : equals.isSymbol "=" = true)
    (htype : readType depth setting tokens = some (type, semicolon :: rest))
    (hsemicolon : semicolon.isSymbol ";" = true) :
    readAlias depth setting false start (word :: name :: equals :: tokens) =
      some (⟨name.text, name.span, false, none, type, ⟨start, semicolon.stop⟩⟩, rest) := by
  have hend : Reach.endStatement ⟨type.span.stop, semicolon :: rest, false⟩ =
      some ⟨semicolon.stop, rest, false⟩ := by
    rw [Reach.endStatement, Reach.take]
    dsimp only
    rw [hsemicolon]
    rfl
  unfold readAlias
  dsimp only
  rw [hword, hname, hline, readParameterSpan, takeSymbol_other hequals (by decide)]
  dsimp only [Option.bind_eq_bind, Option.bind_some]
  rw [takeSymbol_eq_some hequals]
  dsimp only [Option.bind_some]
  rw [htype]
  dsimp only [Option.bind_some]
  rw [hend]
  rfl

/-- A statement that starts with the word of an alias is read as one. -/
theorem readStatement_alias {decl : AliasDecl}
    (hword : word.face = (.word, "type".toList, .none))
    (halias : readAlias depth setting false word.start (word :: name :: tokens) =
      some (decl, rest)) :
    readStatement depth setting (word :: name :: tokens) = some (.aliasItem decl, rest) := by
  have hother (other : String) (hne : ("type".toList == other.toList) = false) :
      word.isWord other = false := (Token.isWord_of_face hword other).trans hne
  have hkind := Token.kind_of_face hword
  have hgap := Token.gap_of_face hword
  have hexport : follow depth setting (.both (.many (.part .decorator)) (.word "export"))
      (Reach.before (word :: name :: tokens)) = none := by
    rw [Option.eq_none_iff_forall_ne_some]
    intro reach hreach
    obtain ⟨_, _, hmany, hreach⟩ := exists_of_follow_both hreach
    rcases exists_of_follow_many hmany with ⟨_, _, hdecorator⟩ | rfl
    · obtain ⟨_, hdecorator⟩ := exists_of_follow_part hdecorator
      obtain ⟨_, _, hat, -⟩ := exists_of_follow_both hdecorator
      obtain ⟨token, heq, hsymbol, -⟩ := exists_symbol hat
      obtain ⟨rfl, -⟩ := List.cons.inj heq
      rw [Token.isSymbol_of_word hkind] at hsymbol
      cases hsymbol
    · obtain ⟨token, heq, hexport, -⟩ := exists_word hreach
      obtain ⟨rfl, -⟩ := List.cons.inj heq
      exact Bool.false_ne_true ((hother "export" (by decide)).symm.trans hexport)
  have himport : follow depth setting (.part .importing)
      (Reach.before (word :: name :: tokens)) = none := by
    rw [Option.eq_none_iff_forall_ne_some]
    intro reach hreach
    obtain ⟨_, hreach⟩ := exists_of_follow_part hreach
    obtain ⟨_, _, himport, -⟩ := exists_of_follow_both hreach
    obtain ⟨token, heq, himport, -⟩ := exists_word himport
    obtain ⟨rfl, -⟩ := List.cons.inj heq
    exact Bool.false_ne_true ((hother "import" (by decide)).symm.trans himport)
  have hdeclared : readDeclared depth setting false word.start (word :: name :: tokens) =
      some (.aliasItem decl, rest) := by
    rw [readDeclared, readInterface, hother "interface" (by decide), halias]
    rfl
  have hdeclaration : readDeclaration depth setting false word.start .statement
      (word :: name :: tokens) = some (.aliasItem decl, rest) := by
    rw [readDeclaration, hother "declare" (by decide), Bool.false_and, if_neg Bool.false_ne_true,
      hdeclared]
  unfold readStatement
  dsimp only
  rw [hkind, hexport, himport, hgap]
  exact hdeclaration

end Statements

/-- The statement that gives the type a name. -/
def Piece.aliased (type : TypeExpr) : List Piece :=
  word "type" :: blank :: word "T" :: blank :: sign "=" :: blank :: (type.pieces ++ [sign ";"])

/-- The statement is legible as a whole source. -/
theorem legible_aliased {type : TypeExpr} (h : type.Printable) : Legible [] (aliased type) := by
  have hblank (rest : Text) : Text.LeavesWord (' ' :: rest) :=
    Separated.leavesWord ⟨' ', _, rfl, by decide⟩
  have hequals (rest : Text) : ReadsBefore (' ' :: rest) .symbol "=".toList :=
    ⟨fun first => by cases first <;> rfl, fun _ => by decide, _, _, rfl, rfl, by decide⟩
  have htype : Legible [] (type.pieces ++ [sign ";"]) :=
    legible_append.2 ⟨legible_type type h ⟨';', _, rfl, by decide⟩,
      (legible_sign (by decide)).2 trivial⟩
  exact ⟨IsWord.reads rfl (hblank _), IsWord.reads rfl (hblank _), hequals _, htype⟩

/-- The source is the text of the statement. -/
theorem join_aliased (type : TypeExpr) :
    join (aliased type) = ("type T = " : Text) ++ type.print ++ (";" : Text) := by
  have hfront : join (aliased type) =
      ("type T = " : Text) ++ join (type.pieces ++ [sign ";"]) := rfl
  rw [hfront, join_append, List.append_assoc]
  rfl

/-- A printed alias is scanned as its tokens and the end, all of them tame. -/
theorem exists_scanned {type : TypeExpr} (h : type.Printable) {source : Text}
    (hsource : source = join (aliased type)) : ∃ tokens finish,
      Token.scan source = tokens ++ [finish] ∧ finish.kind = .finish ∧
        tokens.length ≤ source.length ∧
        Printed ⟨source, true, false⟩ (aliased type) tokens [finish] := by
  have hlegible := legible_aliased h
  have hwhole : join (aliased type) ++ [] = source := (List.append_nil _).trans hsource.symm
  obtain ⟨tokens, left, next, hleft, hspelled, hscan⟩ :=
    exists_tokens hlegible true 0 (Nat.lt_succ_self _)
  obtain ⟨left, rfl⟩ := Nat.exists_eq_add_of_le' hleft
  rw [hwhole, ← hsource, Nat.zero_add] at hscan
  let finish : Token := ⟨.finish, [], Text.byteLength source, .none⟩
  have hscan : Token.scan source = tokens ++ [finish] := hscan
  have htame : AllTame source tokens := by
    have hplaced := scan_placed source
    rw [hscan] at hplaced
    exact tame_of_legible hlegible hspelled hplaced
  have hend : Text.dropBytes finish.start source = [] := by
    have hdrop := Text.dropBytes_byteLength_append source []
    rwa [List.append_nil] at hdrop
  have hfinish : finish.Tame source := ⟨rfl, rfl, by rw [hend]; rfl⟩
  refine ⟨tokens, finish, hscan, rfl, ?_, hspelled, ?_, rfl⟩
  · rw [hsource]
    exact length_le_of_legible hlegible hspelled
  · exact List.forall_mem_append.2 ⟨htame, List.forall_mem_singleton.2 hfinish⟩

/-- Reading undoes printing: a source that gives a printable type a name is
read as one alias of that name for the type, up to its places. -/
theorem read_print (type : TypeExpr) (h : type.Printable) :
    ∃ decl, SourceFile.read (("type T = " : Text) ++ type.print ++ (";" : Text)) =
        some ⟨("type T = " : Text) ++ type.print ++ (";" : Text), [.aliasItem decl]⟩ ∧
      decl.name = ("T" : Text) ∧ decl.exported = false ∧ decl.parameters = none ∧
      decl.type.unplaced = type.unplaced := by
  obtain ⟨source, hsource⟩ : ∃ source, source = join (aliased type) := ⟨_, rfl⟩
  rw [← join_aliased, ← hsource]
  obtain ⟨tokens, finish, hscan, hfinish, hlength, hwritten⟩ := exists_scanned h hsource
  obtain ⟨word, behind, rfl, hword, hbehind⟩ := hwritten.exists_token
  obtain ⟨name, behind, rfl, hname, hbehind⟩ := hbehind.of_blank.exists_token
  obtain ⟨equals, behind, rfl, hequals, hbehind⟩ := hbehind.of_blank.exists_token
  obtain ⟨front, behind, rfl, hfront, hbehind⟩ := hbehind.of_blank.exists_append
  obtain ⟨semicolon, behind, rfl, hsemicolon, hnone⟩ := hbehind.exists_token
  obtain rfl := hnone.spelled.eq_nil
  have hcount : 16 * front.length ≤ 256 * source.length + 1023 := by
    simp only [List.length_cons, List.length_append] at hlength
    omega
  have hend : semicolon.isSymbol ";" = true := Token.isSymbol_of_face hsemicolon
  obtain ⟨found, hfound, hunplaced⟩ :=
    (readAsPrinted type h).type hfront ⟨semicolon, [finish], rfl, ";", by decide, hend⟩ hcount
  let decl : AliasDecl :=
    ⟨name.text, name.span, false, none, found, ⟨word.start, semicolon.stop⟩⟩
  have hstatement : readStatement (256 * source.length + 1023) ⟨source, true, false⟩
      (word :: name :: equals :: (front ++ semicolon :: [finish])) =
        some (.aliasItem decl, [finish]) :=
    readStatement_alias hword (readAlias_eq ((Token.isWord_of_face hword "type").trans (by decide))
      (Token.kind_of_face hname) (Token.endsType_of_face hname (by decide))
      (Token.isSymbol_of_face hequals) hfound hend)
  have hkind : word.kind ≠ .finish := by
    rw [Token.kind_of_face hword]
    decide
  have hdepth : depthFor source.length = 256 * source.length + 1022 + 1 + 1 := rfl
  have htokens : word :: name :: equals :: (front ++ [semicolon]) ++ [finish] =
      word :: name :: equals :: (front ++ semicolon :: [finish]) := by
    rw [List.cons_append, List.cons_append, List.cons_append, List.append_assoc]
    rfl
  refine ⟨decl, ?_, Token.text_of_face hname, rfl, rfl, hunplaced⟩
  rw [SourceFile.read, hscan, htokens, hdepth, readStatements, if_neg hkind, hstatement]
  dsimp only [Option.bind_eq_bind, Option.bind_some]
  rw [readStatements, if_pos hfinish]
  rfl

/-- An object type with a read-only property and an index signature, beside an
intersection. -/
def TypeExpr.nested : TypeExpr :=
  .union
    [.object
      [.property ⟨⟨"'a-b'", .nowhere, true, true, none, .nowhere⟩,
          some (.reference "A.B" [.array (.keyword .string .nowhere) .nowhere] .nowhere)⟩,
        .index (.keyword .string .nowhere) (.keyword .unknown .nowhere) false .nowhere] .nowhere,
      .intersection
        [.paren (.union [.literal (.number "-1") .nowhere, .literal (.string "it's") .nowhere]
            .nowhere) .nowhere,
          .tuple [.literal (.boolean true) .nowhere] .nowhere] .nowhere] .nowhere

/-- The source that gives this type a name. -/
def nestedSource : Text :=
  ("type T = \x7b readonly 'a-b'?: A.B<string[]>; [key: string]: unknown; \x7d" : Text) ++
    " | (-1 | 'it\\'s') & [true];"

/-- A type is printed with quotes, escapes and parentheses, and read back. -/
theorem read_print_nested :
    TypeExpr.nested.Printable ∧ ∃ decl,
      SourceFile.read nestedSource = some ⟨nestedSource, [.aliasItem decl]⟩ ∧
        decl.name = ("T" : Text) ∧ decl.exported = false ∧ decl.parameters = none ∧
        decl.type.unplaced = TypeExpr.nested.unplaced := by
  have hparts : ("A.B" : Text).splitOn '.' = [['A'], ['B']] := by decide
  have hwords : ∀ part ∈ ("A.B" : Text).splitOn '.', IsWord part := by
    rw [hparts]
    exact List.forall_mem_cons.2 ⟨rfl, List.forall_mem_singleton.2 rfl⟩
  have hname : IsTypeName "A.B" := ⟨hwords, by decide, by decide⟩
  have hkey : IsString "'a-b'" := ⟨.inl rfl, rfl⟩
  have hhead : PropertyHead.Printable ⟨"'a-b'", .nowhere, true, true, none, .nowhere⟩ :=
    ⟨hkey, rfl⟩
  have hnumber : Literal.Printable (.number "-1") := ⟨"1", .inr rfl, rfl⟩
  have hstring : Literal.Printable (.string "it's") := ⟨by decide, by decide⟩
  have hobject : Member.AllPrintable
      [.property ⟨⟨"'a-b'", .nowhere, true, true, none, .nowhere⟩,
          some (.reference "A.B" [.array (.keyword .string .nowhere) .nowhere] .nowhere)⟩,
        .index (.keyword .string .nowhere) (.keyword .unknown .nowhere) false .nowhere] :=
    ⟨hhead, ⟨hname, ⟨rfl, trivial⟩, trivial⟩, trivial, trivial, trivial⟩
  have hprintable : TypeExpr.nested.Printable :=
    ⟨by decide, by simp [TypeExpr.isUnion], hobject,
      ⟨by decide, by simp [TypeExpr.isList],
        ⟨by decide, by simp [TypeExpr.isUnion], hnumber, hstring, trivial⟩,
        ⟨trivial, trivial⟩, trivial⟩, trivial⟩
  exact ⟨hprintable, read_print TypeExpr.nested hprintable⟩

end InterfaceSchema
