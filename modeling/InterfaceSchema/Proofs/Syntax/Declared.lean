import InterfaceSchema.Proofs.Syntax.Contiguity
import InterfaceSchema.Proofs.Syntax.Legible

/-!
# Declared names

A word is cut off as far as it goes. What was cut off is a word by itself, and what
stands behind it does not go on with it; so a text behind a word makes up one word
with it exactly if it is a run of letters. The name of a declaration is one of the
words of the source, in front of which stand its keyword and at most some other
words. Hence a source declares names only that are words.
-/

namespace InterfaceSchema

namespace Scan

variable {text found left more : Text} {fuel other : Nat}

/-- A text that goes on with any word in front of it: letters, plain or as escapes,
and digits. -/
def IsRun (text : Text) : Prop := wordRest text.length text = (text, [])

instance (text : Text) : Decidable (IsRun text) :=
  inferInstanceAs (Decidable (wordRest text.length text = (text, [])))

/-- How far a word goes does not depend on the fuel. -/
theorem wordRest_fuel (h : text.length ≤ fuel) (hother : text.length ≤ other) :
    wordRest fuel text = wordRest other text := by
  have hnil (fuel : Nat) : wordRest fuel [] = ([], []) := by cases fuel <;> rfl
  induction fuel generalizing other text with
  | zero =>
    obtain rfl := List.length_eq_zero_iff.1 (Nat.le_zero.1 h)
    rw [hnil, hnil]
  | succ fuel ih =>
    cases other with
    | zero =>
      obtain rfl := List.length_eq_zero_iff.1 (Nat.le_zero.1 hother)
      rw [hnil, hnil]
    | succ other =>
      rw [wordRest, wordRest]
      cases hletter : letter? isWordPart text with
      | none => rfl
      | some found =>
        have hlength := length_lt_of_letter? hletter
        have hrest : wordRest fuel found.2 = wordRest other found.2 :=
          ih (by omega) (by omega)
        dsimp only
        rw [hrest]

/-- The rest of a word goes on with what stands behind it. -/
theorem wordRest_behind (h : wordRest fuel text = (text, []))
    (hother : (text ++ more).length ≤ other) :
    wordRest other (text ++ more) =
      (text ++ (wordRest more.length more).1, (wordRest more.length more).2) := by
  induction fuel generalizing text other with
  | zero =>
    cases h
    exact wordRest_fuel hother (Nat.le_refl _)
  | succ fuel ih =>
    rw [wordRest] at h
    split at h
    · next letter behind hletter =>
      obtain ⟨hfound, hleft⟩ := Prod.mk.inj h
      have htext := eq_of_letter? hletter
      have hbehind : (wordRest fuel behind).1 = behind :=
        List.append_cancel_left (hfound.trans htext)
      have hlength := length_lt_of_letter? hletter
      rw [List.length_append] at hother
      obtain ⟨other, rfl⟩ : ∃ fewer, other = fewer + 1 :=
        Nat.exists_eq_add_one_of_ne_zero (by omega)
      rw [wordRest, letter?_before hletter]
      dsimp only
      rw [ih (Prod.ext hbehind hleft) (by rw [List.length_append]; omega), htext,
        List.append_assoc]
    · cases h
      exact wordRest_fuel hother (Nat.le_refl _)

/-- Behind a run another text makes up a run with it exactly if it is one. -/
theorem isRun_append_iff (h : IsRun text) : IsRun (text ++ more) ↔ IsRun more := by
  rw [IsRun, wordRest_behind h (Nat.le_refl _), IsRun, Prod.ext_iff, Prod.ext_iff]
  exact and_congr_left fun _ => List.append_right_inj _

/-- A word goes on with what stands behind it. -/
theorem word?_append (h : IsWord text) (more : Text) :
    word? (text ++ more) =
      some (text ++ (wordRest more.length more).1, (wordRest more.length more).2) := by
  obtain ⟨⟨letter, behind⟩, hletter, heq⟩ := Option.map_eq_some_iff.1 h
  obtain ⟨hfound, hleft⟩ := Prod.mk.inj heq
  have htext := eq_of_letter? hletter
  have hbehind : (wordRest behind.length behind).1 = behind :=
    List.append_cancel_left (hfound.trans htext)
  rw [word?, letter?_before hletter, Option.map_some]
  dsimp only
  rw [wordRest_behind (Prod.ext hbehind hleft) (Nat.le_refl _), htext, List.append_assoc]

/-- A text behind a word makes up one word with it exactly if it is a run. -/
theorem isWord_append_iff (h : IsWord text) : IsWord (text ++ more) ↔ IsRun more := by
  rw [IsWord, word?_append h, Option.some.injEq, IsRun, Prod.ext_iff, Prod.ext_iff]
  exact and_congr_left fun _ => List.append_right_inj _

/-- An escape is one by itself. -/
theorem codeEscape?_self (h : codeEscape? text = some (found, left)) :
    codeEscape? found = some (found, []) := by
  unfold codeEscape? at h
  split at h
  · next rest =>
    split at h
    · cases h
    · next digits behind hne hcut =>
      cases h
      have hdigits : ∀ c ∈ digits, isHexDigit c = true := by
        obtain ⟨rfl, -⟩ := Prod.mk.inj hcut
        exact fun c hc => List.all_eq_true.1 List.all_takeWhile c hc
      have hclosed : cut isHexDigit (digits ++ ['\x7d']) = (digits, ['\x7d']) := by
        rw [cut, List.takeWhile_append_of_pos hdigits, List.dropWhile_append_of_pos hdigits]
        exact Prod.ext (List.append_nil _) rfl
      rw [codeEscape?, hclosed]
      cases digits with
      | nil => exact absurd rfl hne
      | cons digit digits => rfl
    · cases h
  · next a b c d more hbrace =>
    split at h
    · next hdigits =>
      cases h
      rw [codeEscape?.eq_2 _ _ _ _ _ hbrace, if_pos hdigits]
    · cases h
  · cases h

/-- A letter is one by itself. -/
theorem letter?_self {p : Char → Bool} (h : letter? p text = some (found, left)) :
    letter? p found = some (found, []) := by
  cases text with
  | nil => cases h
  | cons c rest =>
    rw [letter?] at h
    split at h
    · next hc =>
      cases h
      rw [letter?, if_pos hc]
    · next hc =>
      have hself := codeEscape?_self h
      obtain ⟨d, behind, rfl⟩ : ∃ d behind, found = d :: behind := by
        cases found with
        | nil => cases hself
        | cons d behind => exact ⟨d, behind, rfl⟩
      obtain ⟨rfl, -⟩ := List.cons.inj (eq_of_codeEscape? h)
      rw [letter?, if_neg hc, hself]

/-- How far a word goes is a run. -/
theorem isRun_wordRest (fuel : Nat) (text : Text) : IsRun (wordRest fuel text).1 := by
  induction fuel generalizing text with
  | zero => rfl
  | succ fuel ih =>
    rw [wordRest]
    split
    · next letter rest hletter =>
      have hself := letter?_self hletter
      have hfirst : IsRun letter := by
        have hlength := length_lt_of_letter? hself
        obtain ⟨length, hsucc⟩ : ∃ length, letter.length = length + 1 :=
          Nat.exists_eq_add_one_of_ne_zero (Nat.ne_zero_of_lt hlength)
        rw [IsRun, hsucc, wordRest, hself]
        cases length <;> exact Prod.ext (List.append_nil _) rfl
      exact (isRun_append_iff hfirst).2 (ih rest)
    · rfl

/-- A word that is cut off is one by itself. -/
theorem isWord_of_word? (h : word? text = some (found, left)) : IsWord found := by
  obtain ⟨⟨letter, rest⟩, hletter, heq⟩ := Option.map_eq_some_iff.1 h
  obtain ⟨rfl, -⟩ := Prod.mk.inj heq
  have hself := letter?_self hletter
  have hrun := isRun_wordRest rest.length rest
  rw [IsWord, word?, letter?_before hself, Option.map_some]
  dsimp only
  rw [List.nil_append, hrun]

/-- What starts a word goes on with one as well. -/
theorem letter?_part (h : letter? isWordStart text = some (found, left)) :
    letter? isWordPart text = some (found, left) := by
  cases text with
  | nil => cases h
  | cons c rest =>
    rw [letter?] at h ⊢
    split at h
    · next hc => rw [if_pos (by rw [isWordPart, hc, Bool.or_true]), h]
    · have hc : c = '\\' := by
        unfold codeEscape? at h
        split at h
        · next heq => exact (List.cons.inj heq).1
        · next heq => exact (List.cons.inj heq).1
        · cases h
      rw [if_neg (by rw [hc]; decide), h]

/-- A word is a run. -/
theorem isRun_of_isWord (h : IsWord text) : IsRun text := by
  obtain ⟨⟨letter, rest⟩, hletter, heq⟩ := Option.map_eq_some_iff.1 h
  obtain ⟨hfound, hleft⟩ := Prod.mk.inj heq
  have hlength := length_lt_of_letter? hletter
  obtain ⟨length, hsucc⟩ : ∃ length, text.length = length + 1 :=
    Nat.exists_eq_add_one_of_ne_zero (Nat.ne_zero_of_lt hlength)
  rw [IsRun, hsucc, wordRest, letter?_part hletter]
  dsimp only
  rw [wordRest_fuel (by omega) (Nat.le_refl _), hfound, hleft]

/-- A token that is a word is cut off as one. -/
theorem word?_of_lexeme? {first : Bool} (h : lexeme? first text = some (.word, found, left)) :
    word? text = some (found, left) := by
  unfold lexeme? at h
  split at h
  · cases h
  · split at h
    · obtain ⟨_, -, heq⟩ := Option.map_eq_some_iff.1 h
      cases heq
    split at h
    · obtain ⟨_, -, heq⟩ := Option.map_eq_some_iff.1 h
      cases heq
    split at h
    · split at h
      · cases h
      · obtain ⟨_, -, heq⟩ := Option.map_eq_some_iff.1 h
        cases heq
    split at h
    · next hword =>
      cases h
      exact hword
    · obtain ⟨_, -, heq⟩ := Option.map_eq_some_iff.1 h
      cases heq

/-- The words among tokens are words. -/
def Worded (tokens : List Token) : Prop :=
  ∀ token ∈ tokens, token.kind = .word → IsWord token.text

/-- The words that a text is cut into are words. -/
theorem worded_tokensFrom {first : Bool} {gap : Gap} {position : Nat} :
    Worded (tokensFrom fuel first gap position text) := by
  -- a token of another kind is last
  have hother {token : Token} (hkind : token.kind ≠ .word) : Worded [token] :=
    List.forall_mem_singleton.2 fun h => absurd h hkind
  induction fuel generalizing text first gap position with
  | zero => exact List.forall_mem_nil _
  | succ fuel ih =>
    unfold tokensFrom
    split
    · exact hother TokenKind.noConfusion
    · exact ih
    · split
      · exact ih
      · exact hother TokenKind.noConfusion
    · split
      · exact ih
      split
      · next kind found left hlexeme =>
        have hword (hkind : kind = .word) : IsWord found := by
          subst hkind
          exact isWord_of_word? (word?_of_lexeme? hlexeme)
        dsimp only
        split
        · exact List.forall_mem_singleton.2 hword
        · exact List.forall_mem_cons.2 ⟨hword, ih⟩
      · exact hother TokenKind.noConfusion

end Scan

/-- All words that readers leave are words. -/
def wording (source : Text) : TokenInvariant source where
  Holds := Scan.Worded
  Resumes _ := True
  tail h := (List.forall_mem_cons.1 h).2
  settled h := List.forall_mem_cons.2 (List.forall_mem_cons.1 h)
  regex _ _ := Scan.worded_tokensFrom
  opened _ _ := trivial
  closed _ _ _ := trivial
  template _ _ := Scan.worded_tokensFrom

namespace Grammar

/-- Words that may stand in front of the keyword of a declaration. -/
def openers : List String := ["export", "default", "declare"]

/-- Tokens that declare this name: the keyword and the name, behind other words. -/
inductive Declares (keyword : String) (name : Text) : List Token → Prop
  | here {word token : Token} {rest : List Token} (hword : word.isWord keyword = true)
    (hkind : token.kind = .word) (hname : token.text = name) :
    Declares keyword name (word :: token :: rest)
  | behind {word : Token} {rest : List Token} (hword : isOneOf openers word = true)
    (h : Declares keyword name rest) : Declares keyword name (word :: rest)

variable {source : Text} {inv : TokenInvariant source} {setting : Setting} {depth first : Nat}
  {exported : Bool} {tokens rest : List Token} {item : Item} {name : Text}

/-- The declared name is a word. -/
theorem Declares.isWord {keyword : String} (h : Declares keyword name tokens)
    (hwords : Scan.Worded tokens) : IsWord name := by
  induction h with
  | here _ hkind hname =>
    obtain ⟨-, htail⟩ := List.forall_mem_cons.1 hwords
    rw [← hname]
    exact (List.forall_mem_cons.1 htail).1 hkind
  | behind _ _ ih => exact ih (List.forall_mem_cons.1 hwords).2

/-- A statement that declares an interface or alias starts at a position, and the
tokens declare its name. -/
def Begun (start : Nat) (tokens : List Token) : Item → Prop
  | .interfaceItem decl => decl.span.start = start ∧ Declares "interface" decl.name tokens
  | .aliasItem decl => decl.span.start = start ∧ Declares "type" decl.name tokens
  | .importItem _ | .otherItem _ => True

/-- Another word may stand in front. -/
theorem Begun.behind {word : Token} (hword : isOneOf openers word = true)
    (h : Begun first tokens item) : Begun first (word :: tokens) item := by
  cases item with
  | interfaceItem | aliasItem => exact ⟨h.1, .behind hword h.2⟩
  | importItem | otherItem => trivial

/-- An interface declares its name. -/
theorem begun_readInterface {decl : InterfaceDecl}
    (h : readInterface depth setting exported first tokens = some (decl, rest)) :
    Begun first tokens (.interfaceItem decl) := by
  unfold readInterface at h
  split at h
  · next word name behind =>
    split at h
    · next hhead =>
      rw [Bool.and_eq_true, beq_iff_eq] at hhead
      obtain ⟨⟨parameters, after⟩, -, h⟩ := Option.bind_eq_some_iff.1 h
      -- whatever it extends, the body follows
      have hbody {bases : List TypeExpr} {left : List Token}
          (h : (takeSymbol "\x7b" left >>= fun opened =>
            readBody depth setting.lines opened.2 >>= fun found =>
              some ((⟨name.text, name.span, exported, parameters, bases, found.1,
                ⟨first, found.2.1.stop⟩⟩ : InterfaceDecl), found.2.2)) = some (decl, rest)) :
          Begun first (word :: name :: behind) (.interfaceItem decl) := by
        obtain ⟨_, -, h⟩ := Option.bind_eq_some_iff.1 h
        obtain ⟨_, -, h⟩ := Option.bind_eq_some_iff.1 h
        cases h
        exact ⟨rfl, .here hhead.1 hhead.2 rfl⟩
      dsimp only at h
      split at h
      · split at h
        · obtain ⟨_, -, h⟩ := Option.bind_eq_some_iff.1 h
          exact hbody h
        · exact hbody h
      · exact @hbody [] [] h
    · cases h
  · cases h

/-- An alias declares its name. -/
theorem begun_readAlias {decl : AliasDecl}
    (h : readAlias depth setting exported first tokens = some (decl, rest)) :
    Begun first tokens (.aliasItem decl) := by
  unfold readAlias at h
  split at h
  · split at h
    · next hhead =>
      rw [Bool.and_eq_true, Bool.and_eq_true, beq_iff_eq] at hhead
      obtain ⟨_, -, h⟩ := Option.bind_eq_some_iff.1 h
      obtain ⟨_, -, h⟩ := Option.bind_eq_some_iff.1 h
      obtain ⟨_, -, h⟩ := Option.bind_eq_some_iff.1 h
      obtain ⟨_, -, h⟩ := Option.bind_eq_some_iff.1 h
      cases h
      exact ⟨rfl, .here hhead.1.1 hhead.1.2 rfl⟩
    · cases h
  · cases h

/-- An interface or alias declares its name. -/
theorem begun_readDeclared
    (h : readDeclared depth setting exported first tokens = some (item, rest)) :
    Begun first tokens item := by
  unfold readDeclared at h
  split at h
  · next hread =>
    cases h
    exact begun_readInterface hread
  · obtain ⟨⟨decl, behind⟩, hread, heq⟩ := Option.map_eq_some_iff.1 h
    cases heq
    exact begun_readAlias hread

/-- A statement of which only the extent is read declares nothing. -/
theorem begun_readOther {part : Part} {start : Nat} {whole : List Token}
    (h : readOther depth setting part first tokens = some (item, rest)) :
    Begun start whole item := by
  obtain ⟨_, -, h⟩ := Option.bind_eq_some_iff.1 h
  cases h
  trivial

/-- A declaration can have the word `declare` in front. -/
theorem begun_readDeclaration {part : Part}
    (h : readDeclaration depth setting exported first part tokens = some (item, rest)) :
    Begun first tokens item := by
  unfold readDeclaration at h
  extract_lets bare at h
  split at h
  · next found hread =>
    cases h
    have hbare := begun_readDeclared hread
    dsimp only [bare] at hbare
    split at hbare
    · split at hbare
      · next hdeclare =>
        rw [Bool.and_eq_true] at hdeclare
        exact hbare.behind (List.any_eq_true.2 ⟨_, by decide, hdeclare.1⟩)
      · exact hbare
    · exact hbare
  · exact begun_readOther h

/-- An exported declaration can have the word `default` in front. -/
theorem begun_readExported {whole : List Token} {start : Nat}
    (h : readExported depth setting start first whole tokens = some (item, rest)) :
    Begun first tokens item := by
  unfold readExported at h
  extract_lets declares at h
  split at h
  · exact begun_readDeclaration h
  split at h
  · split at h
    · next hdefault =>
      rw [Bool.and_eq_true] at hdefault
      exact (begun_readDeclaration h).behind (List.any_eq_true.2 ⟨_, by decide, hdefault.1⟩)
    · exact begun_readOther h
  · cases h

/-- Where a statement starts that declares something: at the documentation comment in
front of its first token, or at that token. -/
def documented (token : Token) : Nat :=
  ((docOf token.gap.comments).map Span.start).getD token.start

/-- A statement that declares something was read from tokens of which the invariant
holds. They declare its name, unless decorators stand in front of those that do. -/
def Begins (inv : TokenInvariant source) (item : Item) : Prop :=
  ∃ token rest declaring, inv.Holds (token :: rest) ∧ inv.Holds declaring ∧
    Begun (documented token) declaring item ∧
      (declaring = token :: rest ∨ token.isSymbol "@" = true)

/-- What a statement declares. -/
theorem begins_readStatement (hs : setting.source = source) (htokens : inv.Holds tokens)
    (h : readStatement depth setting tokens = some (item, rest)) :
    Begins inv item := by
  unfold readStatement at h
  split at h
  · cases h
  next token behind =>
  extract_lets start at h
  have hnothing (hitem : ∀ whole, Begun start whole item) : Begins inv item :=
    ⟨token, behind, _, htokens, htokens, hitem _, .inl rfl⟩
  split at h
  · cases h
    exact hnothing fun _ => trivial
  split at h
  · next reach hreach =>
    have hexported := begun_readExported h
    obtain ⟨_, middle, hmany, hword⟩ := exists_of_follow_both hreach
    obtain ⟨word, hmiddle, hexport, -⟩ := exists_word hword
    have hall := hexported.behind (List.any_eq_true.2 ⟨_, by decide, hexport⟩)
    rcases exists_of_follow_many hmany with ⟨_, _, hdecorator⟩ | rfl
    · -- the first token is the sign of a decorator
      obtain ⟨_, hdecorator⟩ := exists_of_follow_part hdecorator
      obtain ⟨_, _, hat, -⟩ := exists_of_follow_both hdecorator
      obtain ⟨sign, hfirst, hsign, -⟩ := exists_symbol hat
      obtain ⟨rfl, -⟩ := List.cons.inj hfirst
      have hholds := ((readersLeave (reading inv) _).follow hs rfl htokens _ hmany).2
      exact ⟨token, behind, _, htokens, hmiddle ▸ hholds, hall, .inr hsign⟩
    · obtain ⟨rfl, rfl⟩ := List.cons.inj hmiddle
      exact ⟨token, _, _, htokens, htokens, hall, .inl rfl⟩
  split at h
  · cases h
    exact hnothing fun _ => trivial
  · exact ⟨token, behind, _, htokens, htokens, begun_readDeclaration h, .inl rfl⟩

/-- What statements up to the end of the source declare. -/
theorem begins_readStatements {items : List Item} (hs : setting.source = source)
    (htokens : inv.Holds tokens) (h : readStatements depth setting tokens = some items) :
    ∀ item ∈ items, Begins inv item := by
  induction depth generalizing tokens items with
  | zero => cases h
  | succ depth ih =>
    unfold readStatements at h
    split at h
    · cases h
    split at h
    · cases h
      exact List.forall_mem_nil _
    · obtain ⟨⟨item, rest⟩, hitem, h⟩ := Option.bind_eq_some_iff.1 h
      obtain ⟨others, hothers, h⟩ := Option.bind_eq_some_iff.1 h
      cases h
      have hleaves : Leaves inv (fun found => (reading inv).Items found.1) Prod.snd
          (readStatement depth setting _) := leaves_readStatement hs htokens
      exact List.forall_mem_cons.2
        ⟨begins_readStatement hs htokens hitem, ih (hleaves _ hitem).2 hothers⟩

end Grammar

/-- What the statements of a source file declare, if the invariant holds of the tokens
of the source. -/
theorem TokenInvariant.begins_of_read {source : Text} (inv : TokenInvariant source)
    {file : SourceFile} (hscan : inv.Holds (Token.scan source))
    (h : SourceFile.read source = some file) :
    ∀ item ∈ file.items, Grammar.Begins inv item := by
  obtain ⟨items, hitems, hfile⟩ := Option.bind_eq_some_iff.1 h
  cases hfile
  exact Grammar.begins_readStatements rfl hscan hitems

/-- A source declares names only that are words. -/
theorem SourceFile.isWord_of_declared {source : Text} {file : SourceFile}
    (h : SourceFile.read source = some file) : ∀ name ∈ file.declaredNames, IsWord name := by
  intro name hname
  obtain ⟨item, hitem, hname⟩ := List.mem_filterMap.1 hname
  obtain ⟨_, _, declaring, -, hwords, hbegun, -⟩ :=
    (wording source).begins_of_read Scan.worded_tokensFrom h item hitem
  cases item with
  | interfaceItem | aliasItem =>
    cases hname
    exact hbegun.2.isWord hwords
  | importItem | otherItem => cases hname

/-- The interfaces of a source have names that are words. -/
theorem SourceFile.isWord_of_interface {source : Text} {file : SourceFile}
    (h : SourceFile.read source = some file) {decl : InterfaceDecl}
    (hdecl : decl ∈ file.interfaces) : IsWord decl.name := by
  obtain ⟨item, hitem, hinterface⟩ := List.mem_filterMap.1 hdecl
  refine SourceFile.isWord_of_declared h _ (List.mem_filterMap.2 ⟨item, hitem, ?_⟩)
  cases item with
  | interfaceItem found => exact congrArg (Option.map InterfaceDecl.name) hinterface
  | _ => cases hinterface

end InterfaceSchema
