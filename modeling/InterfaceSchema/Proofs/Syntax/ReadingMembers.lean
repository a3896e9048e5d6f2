import InterfaceSchema.Proofs.Syntax.ReadingOperands

/-!
# Members are read back

Properties and index signatures are read back from their pieces, one behind
the other, and with them object types. That a property is no call signature
and has no further modifiers shows in the mark behind its name.
-/

namespace InterfaceSchema

open Grammar Piece

variable {setting : Setting} {tokens rest : List Token} {depth : Nat} {first second token : Token}
  {text : Text} {type : TypeExpr} {members : List Member} {reach next : Reach}

/-- No call signature starts before tokens of which the first opens nothing and
the second neither opens something nor is the word of a constructor. -/
theorem follow_callMember (hfirst : ∀ symbol ∈ ["(", "<"], first.isSymbol symbol = false)
    (hsecond : ∀ symbol ∈ ["(", "<"], second.isSymbol symbol = false)
    (hword : first.isWord "abstract" = true → second.isWord "new" = false) :
    follow depth setting (.part .callMember) (Reach.before (first :: second :: rest)) = none := by
  have hopens {depth : Nat} {reach middle : Reach} {token : Token} {tokens : List Token}
      (htoken : ∀ symbol ∈ ["(", "<"], token.isSymbol symbol = false)
      (hreach : reach.tokens = token :: tokens)
      (h : follow depth setting (.ahead (.either (.symbol "(") (.symbol "<"))) reach =
        some middle) : False := by
    obtain ⟨_, _, h⟩ := exists_of_follow_ahead h
    obtain ⟨_, h | h⟩ := exists_of_follow_either h
    all_goals
      obtain ⟨other, heq, hsymbol, -⟩ := exists_symbol h
      obtain ⟨rfl, -⟩ := List.cons.inj (hreach.symm.trans heq)
      exact Bool.false_ne_true ((htoken _ (by decide)).symm.trans hsymbol)
  rw [Option.eq_none_iff_forall_ne_some]
  intro next hnext
  obtain ⟨_, hnext⟩ := exists_of_follow_part hnext
  obtain ⟨_, hnext | hnext⟩ := exists_of_follow_either hnext
  · obtain ⟨_, _, hahead, -⟩ := exists_of_follow_both hnext
    exact hopens hfirst rfl hahead
  · obtain ⟨_, _, habstract, hnext⟩ := exists_of_follow_both hnext
    obtain ⟨_, _, hnew, hnext⟩ := exists_of_follow_both hnext
    obtain ⟨_, _, hline, hnext⟩ := exists_of_follow_both hnext
    obtain ⟨_, _, hahead, -⟩ := exists_of_follow_both hnext
    obtain ⟨word, htokens, hnew, -⟩ := exists_word hnew
    obtain rfl := eq_of_follow_sameLine hline
    rcases exists_of_follow_maybe habstract with ⟨_, habstract⟩ | rfl
    · obtain ⟨other, heq, habstract, -⟩ := exists_word habstract
      obtain ⟨rfl, htail⟩ := List.cons.inj heq
      obtain ⟨rfl, -⟩ := List.cons.inj (htail.trans htokens)
      exact Bool.false_ne_true ((hword habstract).symm.trans hnew)
    · obtain ⟨rfl, htail⟩ := List.cons.inj htokens
      exact hopens hsecond htail.symm hahead

/-- A token that names a property: a word or a string. -/
def Token.Names (token : Token) : Prop := token.kind = .word ∨ token.kind = .string

/-- What names a property is no symbol. -/
theorem Token.Names.isSymbol (h : token.Names) (symbol : String) : token.isSymbol symbol = false :=
  isSymbol_of_kind (by rcases h with h | h <;> rw [h] <;> decide) symbol

/-- What names a property starts its name. -/
theorem Token.Names.startsKey (h : token.Names) : startsKey token = true := by
  rcases h with h | h <;> rw [Grammar.startsKey, h]

/-- Signs that stand behind the name of a property. -/
def keyMarks : List String := ["?", ":", ";"]

/-- No clause starts where the first two tokens are no brackets and no signs in
front of one. -/
theorem startsClause_property {isMark : Token → Bool}
    (hfirst : ∀ symbol ∈ ["[", "-", "+"], first.isSymbol symbol = false)
    (hsecond : second.isSymbol "[" = false) :
    startsClause isMark (first :: second :: rest) = false := by
  have hbracket : first.isSymbol "[" = false := hfirst "[" (by decide)
  have hminus : first.isSymbol "-" = false := hfirst "-" (by decide)
  have hplus : first.isSymbol "+" = false := hfirst "+" (by decide)
  rcases rest with _ | ⟨third, _ | ⟨fourth, rest⟩⟩ <;>
    simp [startsClause, hbracket, hminus, hplus, hsecond]

/-- A token of other words is no modifier. -/
theorem takeModifier_other {words : List String} (h : isOneOf words token = false) :
    takeModifier words (token :: rest) = none := by
  cases rest with
  | nil => rfl
  | cons next rest =>
    rw [takeModifier, h]
    rfl

/-- Before the mark behind a name there is no modifier. -/
theorem takeModifier_mark {words : List String} (h : OpensWith keyMarks rest) :
    takeModifier words (token :: rest) = none := by
  obtain ⟨mark, behind, rfl⟩ := h.exists_cons
  rw [takeModifier, startsKey, h.kind_eq]
  dsimp only
  rw [h.isSymbol (by decide : "[" ∉ keyMarks), h.isSymbol (by decide : "*" ∉ keyMarks),
    Bool.or_self, Bool.and_false, Bool.false_and]
  rfl

/-- A name before its mark has no modifiers. -/
theorem readModifiers_bare (h : token.Names) (hrest : OpensWith keyMarks rest) :
    readModifiers (token :: rest) = (⟨false, false⟩, token :: rest) := by
  simp only [readModifiers, takeModifier_mark hrest, Option.getD_none, takeSymbol, h.isSymbol,
    Bool.false_eq_true, if_false]

/-- A name may be read-only. -/
theorem readModifiers_readonly {name : Token} (h : token.face = (.word, "readonly".toList, .none))
    (hname : name.Names) (hline : name.endsType = false) (hrest : OpensWith keyMarks rest) :
    readModifiers (token :: name :: rest) = (⟨true, false⟩, name :: rest) := by
  have hother (words : List String)
      (hwords : (words.any fun word => "readonly".toList == word.toList) = false) :
      takeModifier words (token :: name :: rest) = none :=
    takeModifier_other ((isOneOf_of_face h words).trans hwords)
  have hreadonly : takeModifier ["readonly"] (token :: name :: rest) = some (name :: rest) := by
    rw [takeModifier, isOneOf_of_face h, hname.startsKey, hline]
    rfl
  simp only [readModifiers, hother ["public", "private", "protected"] (by decide),
    hother ["static"] (by decide), hother ["override"] (by decide), hreadonly, Option.getD_none,
    takeModifier_mark hrest, takeSymbol, hname.isSymbol, Bool.false_eq_true, if_false]

/-- The tokens are the mark of an optional property, if it is one. -/
def IsQuestion (optional : Bool) (tokens : List Token) : Prop :=
  if optional then ∃ mark, tokens = [mark] ∧ mark.isSymbol "?" = true else tokens = []

section Signatures

variable {optional isReadonly : Bool} {question : List Token} {docs : Option Span} {start : Nat}
  {name : Text} {span : Span}

/-- A property with a type goes on with the type. -/
theorem readSignature_typed (hquestion : IsQuestion optional question)
    (htoken : token.isSymbol ":" = true)
    (htype : readType depth setting tokens = some (type, rest)) :
    readSignature (depth + 1) setting docs start ⟨isReadonly, false⟩ name span
        (question ++ token :: tokens) =
      some (.property ⟨⟨name, span, optional, isReadonly, docs, ⟨start, type.span.stop⟩⟩,
        some type⟩, rest) := by
  have hangle := Token.isSymbol_other htoken (by decide : ":" ≠ "<")
  have hparen := Token.isSymbol_other htoken (by decide : ":" ≠ "(")
  cases optional with
  | false =>
    obtain rfl : question = [] := hquestion
    rw [List.nil_append, readSignature, takeSymbol_other htoken (by decide)]
    dsimp only
    rw [hangle, hparen, htoken, htype]
    rfl
  | true =>
    obtain ⟨mark, rfl, hmark⟩ := hquestion
    rw [List.singleton_append, readSignature, takeSymbol_eq_some hmark]
    dsimp only
    rw [hangle, hparen, htoken, htype]
    rfl

/-- A property without a type ends before the semicolon. -/
theorem readSignature_untyped (hquestion : IsQuestion optional question)
    (htoken : token.isSymbol ";" = true) (docs : Option Span) (start : Nat) (name : Text)
    (span : Span) (isReadonly : Bool) : ∃ stop,
    readSignature (depth + 1) setting docs start ⟨isReadonly, false⟩ name span
        (question ++ token :: tokens) =
      some (.property ⟨⟨name, span, optional, isReadonly, docs, ⟨start, stop⟩⟩, none⟩,
        token :: tokens) := by
  have hangle := Token.isSymbol_other htoken (by decide : ";" ≠ "<")
  have hparen := Token.isSymbol_other htoken (by decide : ";" ≠ "(")
  have hcolon := Token.isSymbol_other htoken (by decide : ";" ≠ ":")
  cases optional with
  | false =>
    obtain rfl : question = [] := hquestion
    refine ⟨span.stop, ?_⟩
    rw [List.nil_append, readSignature, takeSymbol_other htoken (by decide)]
    dsimp only
    rw [hangle, hparen, hcolon]
    rfl
  | true =>
    obtain ⟨mark, rfl, hmark⟩ := hquestion
    refine ⟨mark.stop, ?_⟩
    rw [List.singleton_append, readSignature, takeSymbol_eq_some hmark]
    dsimp only
    rw [hangle, hparen, hcolon]
    rfl

end Signatures

/-- What stands before the name of a member. -/
def IsModifier (isReadonly : Bool) (tokens : List Token) : Prop :=
  if isReadonly then ∃ token, tokens = [token] ∧ token.face = (.word, "readonly".toList, .none)
  else tokens = []

/-- What marks a member as read-only is spelled like it. -/
theorem isModifier_of_spelled {isReadonly : Bool} (h : Spelled (readonly isReadonly) tokens) :
    IsModifier isReadonly tokens := by
  cases isReadonly with
  | false => exact h.eq_nil
  | true =>
    obtain ⟨token, more, rfl, hface, hmore⟩ := h.exists_token
    obtain rfl : more = [] := hmore.eq_nil
    exact ⟨token, rfl, hface⟩

/-- The tokens of a property up to its type. -/
structure SpellsHead (head : PropertyHead) (front : List Token) (name : Token)
    (question : List Token) : Prop where
  modifier : IsModifier head.readonly front
  names : name.Names
  text : name.text = head.name
  line : name.endsType = false
  question : IsQuestion head.optional question

/-- A property is spelled by its modifier, its name and its mark. -/
theorem exists_head {head : PropertyHead} (h : Spelled (Piece.head head) tokens) :
    ∃ front name question, tokens = front ++ name :: question ∧
      SpellsHead head front name question := by
  rw [Piece.head, List.append_assoc] at h
  obtain ⟨front, behind, rfl, hfront, hbehind⟩ := h.exists_append
  obtain ⟨name, question, rfl, hname, hquestion⟩ := hbehind.exists_token
  have hkind := Token.kind_of_face hname
  refine ⟨front, name, question, rfl, isModifier_of_spelled hfront, ?_,
    Token.text_of_face hname, Token.endsType_of_face hname ?_, ?_⟩
  · split at hkind
    · exact .inr hkind
    · exact .inl hkind
  · split <;> decide
  · rw [IsQuestion]
    split at hquestion
    · next hoptional =>
      obtain ⟨mark, more, rfl, hface, hmore⟩ := hquestion.exists_token
      obtain rfl : more = [] := hmore.eq_nil
      rw [hoptional]
      exact ⟨mark, rfl, Token.isSymbol_of_face hface⟩
    · next hoptional =>
      rw [if_neg hoptional]
      exact hquestion.eq_nil

/-- A property is read by its name and what stands behind the name. -/
theorem readMember_property {isReadonly : Bool} {docs : Option Span} {name : Token}
    {front : List Token} (hfront : IsModifier isReadonly front) (hname : name.Names)
    (hline : name.endsType = false) (hrest : OpensWith keyMarks rest) :
    readMember (depth + 1) setting docs (front ++ name :: rest) =
      readSignature depth setting docs (startOf (front ++ name :: rest)) ⟨isReadonly, false⟩
        name.text name.span rest := by
  obtain ⟨mark, behind, rfl⟩ := hrest.exists_cons
  have hopens : ∀ symbol ∈ ["(", "<"], mark.isSymbol symbol = false := by
    have hdisjoint : ∀ symbol ∈ ["(", "<"], symbol ∉ keyMarks := by decide
    exact fun symbol hsymbol => hrest.isSymbol (hdisjoint symbol hsymbol)
  obtain ⟨hclause, hcall, hmodifiers⟩ :
      (∀ isMark, startsClause isMark (front ++ name :: mark :: behind) = false) ∧
        follow depth setting (.part .callMember)
          (Reach.before (front ++ name :: mark :: behind)) = none ∧
        readModifiers (front ++ name :: mark :: behind) =
          (⟨isReadonly, false⟩, name :: mark :: behind) := by
    cases isReadonly with
    | false =>
      obtain rfl : front = [] := hfront
      exact ⟨fun _ => startsClause_property (fun other _ => hname.isSymbol other)
          (hrest.isSymbol (by decide)),
        follow_callMember (fun other _ => hname.isSymbol other) hopens fun _ => hrest.isWord "new",
        readModifiers_bare hname hrest⟩
    | true =>
      obtain ⟨token, rfl, hface⟩ := hfront
      have htoken (other : String) : token.isSymbol other = false :=
        Token.isSymbol_of_word (Token.kind_of_face hface) other
      have habstract : token.isWord "abstract" = false := by
        rw [Token.isWord_of_face hface]
        decide
      exact ⟨fun _ => startsClause_property (fun other _ => htoken other) (hname.isSymbol "["),
        follow_callMember (fun other _ => htoken other) (fun other _ => hname.isSymbol other)
          fun h => absurd (habstract.symm.trans h) Bool.false_ne_true,
        readModifiers_readonly hface hname hline hrest⟩
  rw [readMember]
  dsimp only
  rw [hclause, hclause, hcall, hmodifiers]
  dsimp only
  rw [hname.isSymbol, hname.startsKey]
  rfl

/-- Behind the name of a property stands its mark, or what follows the
property. -/
theorem opens_question {optional : Bool} {question : List Token}
    (h : IsQuestion optional question) (hrest : OpensWith keyMarks rest) :
    OpensWith keyMarks (question ++ rest) := by
  cases optional with
  | false =>
    obtain rfl : question = [] := h
    exact hrest
  | true =>
    obtain ⟨mark, rfl, hmark⟩ := h
    exact ⟨mark, rest, rfl, "?", by decide, hmark⟩

/-- With enough depth the member is found again before the semicolon that ends
it. -/
def ReadsBackMember (member : Member) : Prop :=
  ∀ {setting : Setting} {tokens rest : List Token} {depth : Nat},
    Printed setting member.pieces tokens rest → 16 * tokens.length ≤ depth →
      ∃ found semicolon, semicolon.face = (.symbol, ";".toList, .none) ∧
        readMember depth setting none (tokens ++ rest) = some (found, semicolon :: rest) ∧
        Member.allUnplaced [found] = Member.allUnplaced [member]

/-- A property with a type is read back. -/
theorem reads_property {head : PropertyHead} (hprintable : head.Printable)
    (htype : ReadAsPrinted type) : ReadsBackMember (.property ⟨head, some type⟩) := by
  intro setting tokens rest depth hwritten hdepth
  rw [Member.pieces, List.append_assoc, List.append_assoc, List.cons_append, List.cons_append,
    List.nil_append] at hwritten
  obtain ⟨start, behind, rfl, hstart, hbehind⟩ := hwritten.exists_append
  obtain ⟨front, name, question, rfl, hhead⟩ := exists_head hstart.spelled
  obtain ⟨colon, behind, rfl, hcolon, hbehind⟩ := hbehind.exists_token
  obtain ⟨typed, last, rfl, htyped, hlast⟩ := hbehind.of_blank.exists_append
  obtain ⟨semicolon, last, rfl, hsemicolon, hnone⟩ := hlast.exists_token
  obtain rfl := hnone.spelled.eq_nil
  have hcolon := Token.isSymbol_of_face hcolon
  simp only [List.length_append, List.length_cons, List.length_nil] at hdepth
  obtain ⟨depth, rfl⟩ := Nat.exists_eq_add_of_le' (by omega : 2 ≤ depth)
  obtain ⟨found, hfound, hunplaced⟩ := htype.type htyped
    ⟨semicolon, rest, rfl, ";", by decide, Token.isSymbol_of_face hsemicolon⟩
    (by omega : _ ≤ depth + 0)
  have hopens : OpensWith keyMarks (question ++ colon :: (typed ++ ([semicolon] ++ rest))) :=
    opens_question hhead.question ⟨colon, _, rfl, ":", by decide, hcolon⟩
  have htokens : front ++ name :: question ++ colon :: (typed ++ [semicolon]) ++ rest =
      front ++ name :: (question ++ colon :: (typed ++ ([semicolon] ++ rest))) := by
    simp only [List.append_assoc, List.cons_append]
  rw [htokens]
  refine ⟨_, semicolon, hsemicolon,
    (readMember_property hhead.modifier hhead.names hhead.line hopens).trans
      (readSignature_typed hhead.question hcolon hfound), ?_⟩
  simp only [Member.allUnplaced, hunplaced, hhead.text, hprintable.docs]

/-- A property without a type is read back. -/
theorem reads_untyped {head : PropertyHead} (hprintable : head.Printable) :
    ReadsBackMember (.property ⟨head, none⟩) := by
  intro setting tokens rest depth hwritten hdepth
  rw [Member.pieces] at hwritten
  obtain ⟨start, behind, rfl, hstart, hbehind⟩ := hwritten.exists_append
  obtain ⟨front, name, question, rfl, hhead⟩ := exists_head hstart.spelled
  obtain ⟨semicolon, last, rfl, hface, hnone⟩ := hbehind.exists_token
  obtain rfl := hnone.spelled.eq_nil
  have hsemicolon := Token.isSymbol_of_face hface
  simp only [List.length_append, List.length_cons, List.length_nil] at hdepth
  obtain ⟨depth, rfl⟩ := Nat.exists_eq_add_of_le' (by omega : 2 ≤ depth)
  have hopens : OpensWith keyMarks (question ++ semicolon :: rest) :=
    opens_question hhead.question ⟨semicolon, rest, rfl, ";", by decide, hsemicolon⟩
  have htokens : front ++ name :: question ++ [semicolon] ++ rest =
      front ++ name :: (question ++ semicolon :: rest) := by
    simp only [List.append_assoc, List.cons_append, List.nil_append]
  obtain ⟨stop, hread⟩ := readSignature_untyped hhead.question hsemicolon none
    (startOf (front ++ name :: (question ++ semicolon :: rest))) name.text name.span head.readonly
  rw [htokens]
  refine ⟨_, semicolon, hface,
    (readMember_property hhead.modifier hhead.names hhead.line hopens).trans hread, ?_⟩
  simp only [Member.allUnplaced, hhead.text, hprintable.docs]

/-- A colon stands before the type of an index signature. -/
theorem takeClauseColon_colon {colon : Token} (h : colon.face = (.symbol, ":".toList, .none)) :
    takeClauseColon (colon :: tokens) = some tokens := by
  obtain ⟨kind, text, start, gap⟩ := colon
  cases h
  rfl

/-- An index signature goes on with the types of its keys and values. -/
theorem readMember_clause {isReadonly : Bool} {docs : Option Span} {front : List Token}
    {opening name colon : Token} (hfront : IsModifier isReadonly front)
    (hopening : opening.isSymbol "[" = true) (hname : name.kind = .word)
    (hcolon : colon.isSymbol ":" = true) :
    readMember (depth + 2) setting docs (front ++ opening :: name :: colon :: tokens) =
      (readType depth setting.inside tokens).bind fun (key, rest) =>
        (takeSymbol "]" rest).bind fun (_, rest) =>
          (takeClauseColon rest).bind fun rest =>
            (readType depth setting rest).bind fun (value, rest) =>
              some (.index key value isReadonly ⟨startOf
                (front ++ opening :: name :: colon :: tokens), value.span.stop⟩, rest) := by
  cases isReadonly with
  | false =>
    obtain rfl : front = [] := hfront
    have hclause : startsClause (fun mark => mark.isSymbol ":")
        (opening :: name :: colon :: tokens) = true := by
      simp [startsClause, hopening, hname, hcolon]
    rw [List.nil_append, readMember]
    dsimp only
    rw [hclause, if_pos rfl, readIndex, List.takeWhile_cons, List.dropWhile_cons, hopening]
    rfl
  | true =>
    obtain ⟨token, rfl, hface⟩ := hfront
    have hbracket : token.isSymbol "[" = false :=
      Token.isSymbol_of_word (Token.kind_of_face hface) _
    have hreadonly : token.isWord "readonly" = true := by
      rw [Token.isWord_of_face hface]
      decide
    have hclause : startsClause (fun mark => mark.isSymbol ":")
        (token :: opening :: name :: colon :: tokens) = true := by
      simp [startsClause, hreadonly, hopening, hname, hcolon]
    rw [List.singleton_append, readMember]
    dsimp only
    rw [hclause, if_pos rfl, readIndex, List.takeWhile_cons, List.dropWhile_cons, hbracket,
      Bool.not_false, if_pos rfl, if_pos rfl, List.takeWhile_cons, List.dropWhile_cons, hopening,
      Bool.not_true, if_neg Bool.false_ne_true, if_neg Bool.false_ne_true, List.any_cons, hreadonly]
    rfl

/-- An index signature is read by its parts. -/
theorem readMember_index {isReadonly : Bool} {docs : Option Span} {front values : List Token}
    {opening name colon closing sign : Token} {key value : TypeExpr}
    (hfront : IsModifier isReadonly front) (hopening : opening.isSymbol "[" = true)
    (hname : name.kind = .word) (hcolon : colon.isSymbol ":" = true)
    (hkey : readType depth setting.inside tokens = some (key, closing :: sign :: values))
    (hclosing : closing.isSymbol "]" = true) (hsign : sign.face = (.symbol, ":".toList, .none))
    (hvalue : readType depth setting values = some (value, rest)) :
    readMember (depth + 2) setting docs (front ++ opening :: name :: colon :: tokens) =
      some (.index key value isReadonly
        ⟨startOf (front ++ opening :: name :: colon :: tokens), value.span.stop⟩, rest) := by
  rw [readMember_clause hfront hopening hname hcolon, hkey]
  dsimp only [Option.bind_some]
  rw [takeSymbol_eq_some hclosing]
  dsimp only [Option.bind_some]
  rw [takeClauseColon_colon hsign]
  dsimp only [Option.bind_some]
  rw [hvalue]
  rfl

/-- An index signature is read back. -/
theorem reads_index {isReadonly : Bool} {key value : TypeExpr} {span : Span}
    (hkey : ReadAsPrinted key) (hvalue : ReadAsPrinted value) :
    ReadsBackMember (.index key value isReadonly span) := by
  intro setting tokens rest depth hwritten hdepth
  simp only [Member.pieces, List.append_assoc, List.cons_append, List.nil_append] at hwritten
  obtain ⟨front, behind, rfl, hfront, hbehind⟩ := hwritten.exists_append
  have hmodifier := isModifier_of_spelled hfront.spelled
  obtain ⟨opening, behind, rfl, hopening, hbehind⟩ := hbehind.exists_token
  obtain ⟨name, behind, rfl, hname, hbehind⟩ := hbehind.exists_token
  obtain ⟨colon, behind, rfl, hcolon, hbehind⟩ := hbehind.exists_token
  obtain ⟨keys, behind, rfl, hkeys, hbehind⟩ := hbehind.of_blank.exists_append
  obtain ⟨closing, behind, rfl, hclosing, hbehind⟩ := hbehind.exists_token
  obtain ⟨colon', behind, rfl, hcolon', hbehind⟩ := hbehind.exists_token
  obtain ⟨values, behind, rfl, hvalues, hbehind⟩ := hbehind.of_blank.exists_append
  obtain ⟨semicolon, behind, rfl, hsemicolon, hnone⟩ := hbehind.exists_token
  obtain rfl := hnone.spelled.eq_nil
  have hclosing := Token.isSymbol_of_face hclosing
  simp only [List.length_append, List.length_cons, List.length_nil] at hdepth
  obtain ⟨depth, rfl⟩ := Nat.exists_eq_add_of_le' (by omega : 2 ≤ depth)
  obtain ⟨foundKey, hfoundKey, hunplacedKey⟩ := hkey.type hkeys.inside
    ⟨closing, _, rfl, "]", by decide, hclosing⟩ (by omega : _ ≤ depth + 0)
  obtain ⟨foundValue, hfoundValue, hunplacedValue⟩ := hvalue.type hvalues
    ⟨semicolon, rest, rfl, ";", by decide, Token.isSymbol_of_face hsemicolon⟩
    (by omega : _ ≤ depth + 0)
  have htokens : front ++ opening :: name :: colon ::
        (keys ++ closing :: colon' :: (values ++ [semicolon])) ++ rest =
      front ++ opening :: name :: colon ::
        (keys ++ closing :: colon' :: (values ++ ([semicolon] ++ rest))) := by
    simp only [List.append_assoc, List.cons_append]
  rw [List.cons_append, List.cons_append, List.append_assoc] at hfoundKey
  rw [htokens]
  refine ⟨_, semicolon, hsemicolon, readMember_index hmodifier (Token.isSymbol_of_face hopening)
    (Token.kind_of_face hname) (Token.isSymbol_of_face hcolon) hfoundKey hclosing hcolon'
    hfoundValue, ?_⟩
  simp only [Member.allUnplaced, hunplacedKey, hunplacedValue]

/-- The member starts with a word, a string or a bracket. -/
def Member.Leading (member : Member) : Prop :=
  ∃ kind text more, member.pieces = .token kind text :: more ∧ (kind = .symbol → text = ['['])

/-- With or without the mark of a read-only member it starts as one. -/
theorem exists_leading {isReadonly : Bool} {kind : TokenKind} {pieces behind : List Piece}
    (hpieces : pieces = .token kind text :: behind) (h : kind = .symbol → text = ['[']) :
    ∃ kind text more, readonly isReadonly ++ pieces = .token kind text :: more ∧
      (kind = .symbol → text = ['[']) := by
  cases isReadonly with
  | false => exact ⟨kind, text, behind, hpieces, h⟩
  | true => exact ⟨.word, _, _, rfl, nofun⟩

/-- A property starts with its name or its modifier. -/
theorem leading_property (property : Property) : (Member.property property).Leading := by
  obtain ⟨head, type⟩ := property
  have hname : (if isQuoted head.name then TokenKind.string else .word) = .symbol →
      head.name = ['['] := by split <;> exact nofun
  cases type with
  | none =>
    rw [Member.Leading, Member.pieces, Piece.head, List.append_assoc, List.append_assoc]
    exact exists_leading rfl hname
  | some type =>
    rw [Member.Leading, Member.pieces, Piece.head, List.append_assoc, List.append_assoc,
      List.append_assoc, List.append_assoc]
    exact exists_leading rfl hname

/-- An index signature starts with its bracket or its modifier. -/
theorem leading_index (key value : TypeExpr) (isReadonly : Bool) (span : Span) :
    (Member.index key value isReadonly span).Leading := by
  rw [Member.Leading, Member.pieces, List.append_assoc, List.append_assoc, List.append_assoc,
    List.append_assoc]
  exact exists_leading rfl fun _ => rfl

/-- No comments stand before the first token of a member, and it ends no
list. -/
theorem Member.Leading.exists_cons {member : Member} (h : member.Leading)
    (hspelled : Spelled member.pieces tokens) : ∃ first behind, tokens = first :: behind ∧
      first.gap = .none ∧ ∀ symbol ∈ ["\x7d", ";", ","], first.isSymbol symbol = false := by
  obtain ⟨kind, text, more, hpieces, htext⟩ := h
  rw [hpieces] at hspelled
  obtain ⟨first, behind, rfl, hface, -⟩ := hspelled.exists_token
  refine ⟨first, behind, rfl, Token.gap_of_face hface, fun symbol hsymbol => ?_⟩
  by_cases hkind : kind = .symbol
  · obtain rfl := hkind
    obtain rfl := htext rfl
    have hbracket : first.isSymbol "[" = true := Token.isSymbol_of_face hface
    have hne : ∀ symbol ∈ ["\x7d", ";", ","], "[" ≠ symbol := by decide
    exact Token.isSymbol_other hbracket (hne symbol hsymbol)
  · have hsymbol : first.kind ≠ .symbol := fun heq =>
      hkind ((Token.kind_of_face hface).symm.trans heq)
    exact Token.isSymbol_of_kind hsymbol symbol

/-- Members lose their places one by one. -/
theorem allUnplaced_cons (member : Member) (members : List Member) :
    Member.allUnplaced (member :: members) =
      Member.allUnplaced [member] ++ Member.allUnplaced members := by
  rcases member with ⟨head, _ | type⟩ | ⟨key, value, isReadonly, span⟩ | span | span <;> rfl

/-- Members are read back up to the closing brace. -/
theorem reads_members {closing : Token} (hclosing : closing.isSymbol "\x7d" = true)
    (hmembers : ∀ member ∈ members, member.Leading ∧ ReadsBackMember member)
    (hwritten : Printed setting (Member.allPieces members) tokens (closing :: rest))
    (hdepth : 16 * tokens.length + 1 ≤ depth) :
    ∃ found, readMembers depth setting [] (tokens ++ closing :: rest) =
        some (found, closing, rest) ∧
      Member.allUnplaced found = Member.allUnplaced members := by
  induction members generalizing tokens depth with
  | nil =>
    obtain rfl : tokens = [] := hwritten.spelled.eq_nil
    obtain ⟨depth, rfl⟩ := Nat.exists_eq_add_of_le' (by omega : 1 ≤ depth)
    refine ⟨[], ?_, rfl⟩
    rw [List.nil_append, readMembers, hclosing]
    rfl
  | cons member members ih =>
    obtain ⟨⟨hleading, hmember⟩, hmembers⟩ := List.forall_mem_cons.1 hmembers
    rw [Member.allPieces, List.cons_append] at hwritten
    obtain ⟨front, last, rfl, hfront, hlast⟩ := hwritten.of_blank.exists_append
    obtain ⟨first, behind, rfl, hgap, hsymbol⟩ := hleading.exists_cons hfront.spelled
    rw [List.length_append, List.length_cons] at hdepth
    obtain ⟨depth, rfl⟩ := Nat.exists_eq_add_of_le' (by omega : 1 ≤ depth)
    obtain ⟨found, semicolon, hsemicolon, hfound, hunplaced⟩ :=
      hmember hfront (by rw [List.length_cons]; omega : _ ≤ depth)
    obtain ⟨others, hothers, hall⟩ := ih hmembers hlast (by omega : _ ≤ depth)
    have hcomments : semicolon.gap.comments = [] :=
      congrArg Gap.comments (Token.gap_of_face hsemicolon)
    refine ⟨found :: others, ?_, ?_⟩
    · rw [List.append_assoc, List.cons_append, readMembers, hsymbol "\x7d" (by decide), hgap]
      dsimp only
      rw [if_neg Bool.false_ne_true]
      rw [List.cons_append] at hfound
      rw [show docOf ([] ++ Gap.none.comments) = none from rfl, hfound]
      dsimp only [Option.bind_eq_bind, Option.bind_some]
      rw [Token.isSymbol_of_face hsemicolon, Bool.true_or, if_pos rfl, hcomments, hothers]
      rfl
    · rw [allUnplaced_cons, hunplaced, hall, ← allUnplaced_cons]

/-- No separator is skipped before printed members. -/
theorem readBody_eq {closing : Token} (hclosing : closing.isSymbol "\x7d" = true)
    (hmembers : ∀ member ∈ members, member.Leading)
    (hspelled : Spelled (Member.allPieces members) tokens) :
    readBody (depth + 1) setting (tokens ++ closing :: rest) =
      readMembers depth setting [] (tokens ++ closing :: rest) := by
  obtain ⟨first, behind, heq, hsemicolon, hcomma⟩ : ∃ first behind,
      tokens ++ closing :: rest = first :: behind ∧ first.isSymbol ";" = false ∧
        first.isSymbol "," = false := by
    cases members with
    | nil =>
      obtain rfl : tokens = [] := hspelled.eq_nil
      exact ⟨closing, rest, rfl, Token.isSymbol_other hclosing (by decide),
        Token.isSymbol_other hclosing (by decide)⟩
    | cons member members =>
      rw [Member.allPieces, List.cons_append] at hspelled
      obtain ⟨front, last, rfl, hfront, -⟩ := hspelled.exists_append
      obtain ⟨first, behind, rfl, -, hsymbol⟩ :=
        (hmembers member List.mem_cons_self).exists_cons hfront
      exact ⟨first, behind ++ last ++ closing :: rest, rfl, hsymbol ";" (by decide),
        hsymbol "," (by decide)⟩
  rw [heq]
  unfold readBody
  split
  · next token next more htokens =>
    obtain ⟨rfl, -⟩ := List.cons.inj htokens
    rw [hsemicolon, hcomma]
    rfl
  · rfl

/-- A member without a known extent is found among members without places. -/
theorem mapped_mem_allUnplaced {span : Span} (h : .mapped span ∈ members) :
    .mapped .nowhere ∈ Member.allUnplaced members := by
  induction members with
  | nil => exact nomatch h
  | cons member members ih =>
    rw [allUnplaced_cons]
    rcases List.mem_cons.1 h with rfl | hmem
    · exact List.mem_append_left _ List.mem_cons_self
    · exact List.mem_append_right _ (ih hmem)

/-- No mapped clause is printed. -/
theorem mapped_not_mem (h : Member.AllPrintable members) :
    .mapped .nowhere ∉ Member.allUnplaced members := by
  induction members with
  | nil => exact nofun
  | cons member members ih =>
    rw [allUnplaced_cons, List.mem_append, not_or]
    rcases member with ⟨head, _ | type⟩ | ⟨key, value, isReadonly, span⟩ | span | span
    · exact ⟨by simp [Member.allUnplaced], ih h.2⟩
    · exact ⟨by simp [Member.allUnplaced], ih h.2.2⟩
    · exact ⟨by simp [Member.allUnplaced], ih h.2.2⟩
    · exact absurd h id
    · exact absurd h id

/-- A brace opens an object type, if none of its members is mapped. -/
theorem readPrimary_brace {closing : Token} (h : token.isSymbol "\x7b" = true)
    (hbody : readBody depth setting.lines tokens = some (members, closing, rest))
    (hmapped : ∀ span, .mapped span ∉ members) :
    readPrimary (depth + 1) setting (token :: tokens) =
      some (.object members ⟨token.start, closing.stop⟩, rest) := by
  unfold readPrimary
  dsimp only
  rw [Token.kind_of_isSymbol h]
  dsimp only
  rw [Token.isSymbol_other h (by decide), Token.isSymbol_other h (by decide), h,
    if_neg Bool.false_ne_true, if_neg Bool.false_ne_true, if_pos rfl, hbody]
  refine if_neg fun hany => ?_
  obtain ⟨member, hmem, hmember⟩ := List.any_eq_true.1 hany
  cases member with
  | mapped span => exact hmapped span hmem
  | _ => cases hmember

/-- An object type is read back. -/
theorem reads_object {span : Span} (hprintable : Member.AllPrintable members)
    (hmembers : ∀ member ∈ members, member.Leading ∧ ReadsBackMember member) :
    ReadsBack readPrimary 5 separators (.object members span) := by
  intro setting tokens rest depth hwritten hrest hdepth
  rw [TypeExpr.pieces, List.append_assoc, List.singleton_append] at hwritten
  obtain ⟨opening, behind, rfl, hopening, hbehind⟩ := hwritten.exists_token
  obtain ⟨front, last, rfl, hfront, hlast⟩ := hbehind.exists_append
  obtain ⟨closing, last, rfl, hclosing, hnone⟩ := hlast.of_blank.exists_token
  obtain rfl := hnone.spelled.eq_nil
  have hclosing := Token.isSymbol_of_face hclosing
  rw [List.length_cons, List.length_append, List.length_singleton] at hdepth
  obtain ⟨depth, rfl⟩ := Nat.exists_eq_add_of_le' (by omega : 2 ≤ depth)
  obtain ⟨found, hfound, hall⟩ :=
    reads_members hclosing hmembers hfront.lines (by omega : _ ≤ depth)
  have hmapped (span : Span) : .mapped span ∉ found := fun hmem =>
    mapped_not_mem hprintable (hall ▸ mapped_mem_allUnplaced hmem)
  have hleading : ∀ member ∈ members, member.Leading := fun member hmem => (hmembers member hmem).1
  refine ⟨.object found ⟨opening.start, closing.stop⟩, ?_, ?_⟩
  · rw [List.cons_append, List.append_assoc]
    exact readPrimary_brace (Token.isSymbol_of_face hopening)
      ((readBody_eq hclosing hleading hfront.spelled).trans hfound) hmapped
  · rw [TypeExpr.unplaced, TypeExpr.unplaced, hall]

end InterfaceSchema
