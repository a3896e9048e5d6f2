import InterfaceSchema.Proofs.Dialect.Upholding
import InterfaceSchema.Proofs.Text.Meaning

/-!
# Reading object literals

An object literal is cut into words, texts in single quotes and signs, and these are read
as lists and objects within each other. Keys are identifiers or texts in quotes. What is
read does not depend on how the lines of the literal are shifted.
-/

namespace InterfaceSchema

mutual

/-- What a literal denotes. -/
inductive Datum where
  | text (value : Text)
  /-- A number, a truth value or a name. -/
  | word (spelling : Text)
  | list (items : List Datum)
  | object (entries : List DatumEntry)

/-- An entry of an object. -/
structure DatumEntry where
  key : Text
  value : Datum

end

namespace ObjectLiteral

/-- A part of a literal. -/
inductive Lexeme where
  | word (spelling : Text)
  /-- A text in quotes, with its escapes resolved. -/
  | text (value : Text)
  | openObject
  | closeObject
  | openList
  | closeList
  | comma
  | colon
deriving DecidableEq, Repr

/-- Where cutting stands. -/
inductive Mode where
  /-- Outside of quotes, behind this much of a word. -/
  | code (word : Text)
  /-- In quotes, behind this text. -/
  | quoted (read : Text)
  /-- Right after a backslash in quotes. -/
  | escaped (read : Text)
deriving DecidableEq, Repr

/-- Whether the character belongs to names and numbers. -/
def isWordPart (c : Char) : Bool :=
  Text.isAlphanumeric c || c == '_' || c == '$' || c == '.' || c == '+' || c == '-'

/-- The sign that a character is. -/
def sign? (c : Char) : Option Lexeme :=
  if c = '\x7b' then some .openObject
  else if c = '\x7d' then some .closeObject
  else if c = '[' then some .openList
  else if c = ']' then some .closeList
  else if c = ',' then some .comma
  else if c = ':' then some .colon
  else none

/-- A word that comes to its end. -/
def endWord (word : Text) : List Lexeme := if word = [] then [] else [.word word]

/-- What comes to its end with a character, and where cutting stands behind it. A backslash
stands before quotes and backslashes only, and no line ends within quotes. -/
def step (mode : Mode) (c : Char) : Option (List Lexeme × Mode) :=
  match mode with
  | .escaped read => if c = '\\' ∨ c = '\'' then some ([], .quoted (read ++ [c])) else none
  | .quoted read =>
    if c = '\'' then some ([.text read], .code [])
    else if c = '\\' then some ([], .escaped read)
    else if Scan.endsLine c then none
    else some ([], .quoted (read ++ [c]))
  | .code word =>
    if isWordPart c then some ([], .code (word ++ [c]))
    else if Text.isBlank c then some (endWord word, .code [])
    else if c = '\'' then some (endWord word, .quoted [])
    else (sign? c).map fun sign => (endWord word ++ [sign], .code [])

/-- Cut a text into lexemes. -/
def through : Mode → Text → Option (List Lexeme × Mode)
  | mode, [] => some ([], mode)
  | mode, c :: rest =>
    (step mode c).bind fun found =>
      (through found.2 rest).map fun more => (found.1 ++ more.1, more.2)

/-- The lexemes of a text. -/
def lexemes? (text : Text) : Option (List Lexeme) :=
  match through (.code []) text with
  | some (found, .code word) => some (found ++ endWord word)
  | _ => none

/-- The key that a lexeme stands for. A word has to be an identifier. -/
def key? : Lexeme → Option Text
  | .word spelling => if Text.isIdentifier spelling then some spelling else none
  | .text value => some value
  | _ => none

mutual

/-- Read what stands in front, and what is left behind it. The number bounds the
recursion. -/
def readDatum : Nat → List Lexeme → Option (Datum × List Lexeme)
  | 0, _ => none
  | fuel + 1, lexemes =>
    match lexemes with
    | .text value :: rest => some (.text value, rest)
    | .word spelling :: rest => some (.word spelling, rest)
    | .openList :: .closeList :: rest => some (.list [], rest)
    | .openList :: rest => (readItems fuel rest).map fun found => (.list found.1, found.2)
    | .openObject :: .closeObject :: rest => some (.object [], rest)
    | .openObject :: rest => (readEntries fuel rest).map fun found => (.object found.1, found.2)
    | _ => none

/-- Read the items of a list up to its end. -/
def readItems : Nat → List Lexeme → Option (List Datum × List Lexeme)
  | 0, _ => none
  | fuel + 1, lexemes =>
    match readDatum fuel lexemes with
    | some (item, .comma :: rest) =>
      (readItems fuel rest).map fun found => (item :: found.1, found.2)
    | some (item, .closeList :: rest) => some ([item], rest)
    | _ => none

/-- Read the entries of an object up to its end. -/
def readEntries : Nat → List Lexeme → Option (List DatumEntry × List Lexeme)
  | 0, _ => none
  | fuel + 1, lexemes =>
    match lexemes with
    | lexeme :: .colon :: rest =>
      match key? lexeme, readDatum fuel rest with
      | some key, some (value, .comma :: rest) =>
        (readEntries fuel rest).map fun found => (⟨key, value⟩ :: found.1, found.2)
      | some key, some (value, .closeObject :: rest) => some ([⟨key, value⟩], rest)
      | _, _ => none
    | _ => none

end

/-- What a text denotes, if it is a literal and nothing else. -/
def read? (text : Text) : Option Datum :=
  match lexemes? text with
  | none => none
  | some lexemes =>
    match readDatum lexemes.length lexemes with
    | some (datum, []) => some datum
    | _ => none

/-- Lists of lexemes with commas between them. -/
def row : List (List Lexeme) → List Lexeme
  | [] => []
  | [lexemes] => lexemes
  | lexemes :: rest => lexemes ++ .comma :: row rest

/-- A key as a lexeme: a word if it is an identifier, in quotes otherwise. -/
def keyLexeme (key : Text) : Lexeme :=
  if Text.isIdentifier key then .word key else .text key

end ObjectLiteral

open ObjectLiteral

mutual

/-- The lexemes that denote a datum. -/
def Datum.lexemes : Datum → List Lexeme
  | .text value => [.text value]
  | .word spelling => [.word spelling]
  | .list items => .openList :: (row (itemLexemes items) ++ [.closeList])
  | .object entries => .openObject :: (row (entryLexemes entries) ++ [.closeObject])

/-- The lexemes of items, one by one. -/
def Datum.itemLexemes : List Datum → List (List Lexeme)
  | [] => []
  | item :: rest => item.lexemes :: itemLexemes rest

/-- The lexemes of entries, one by one. -/
def Datum.entryLexemes : List DatumEntry → List (List Lexeme)
  | [] => []
  | ⟨key, value⟩ :: rest => (keyLexeme key :: .colon :: value.lexemes) :: entryLexemes rest

end

namespace ObjectLiteral

section Reading

variable {fuel : Nat} {rest : List Lexeme}

/-- A key is read from its lexeme. -/
theorem key?_keyLexeme (key : Text) : key? (keyLexeme key) = some key := by
  rw [keyLexeme]
  split
  · next hidentifier => rw [key?, if_pos hidentifier]
  · rfl

/-- No datum starts with a closing bracket. -/
theorem exists_lexemes_cons (datum : Datum) : ∃ first more, datum.lexemes = first :: more ∧
    first ≠ .closeList ∧ first ≠ .closeObject := by
  cases datum with
  | text | word => exact ⟨_, _, by rw [Datum.lexemes], by simp, by simp⟩
  | list | object => exact ⟨_, _, by rw [Datum.lexemes], by simp, by simp⟩

/-- Everything that can be read with so much fuel is read back from its lexemes. -/
structure ReadsBack (fuel : Nat) : Prop where
  datum : ∀ (datum : Datum) rest, datum.lexemes.length ≤ fuel →
    readDatum fuel (datum.lexemes ++ rest) = some (datum, rest)
  items : ∀ (item : Datum) items rest, (row (Datum.itemLexemes (item :: items))).length < fuel →
    readItems fuel (row (Datum.itemLexemes (item :: items)) ++ .closeList :: rest) =
      some (item :: items, rest)
  entries : ∀ (entry : DatumEntry) entries rest,
    (row (Datum.entryLexemes (entry :: entries))).length < fuel →
    readEntries fuel (row (Datum.entryLexemes (entry :: entries)) ++ .closeObject :: rest) =
      some (entry :: entries, rest)

/-- Two parts of a row have a comma between them. -/
theorem row_cons_cons (first second : List Lexeme) (rest : List (List Lexeme)) :
    row (first :: second :: rest) = first ++ .comma :: row (second :: rest) := rfl

/-- Rows that are not empty start with what their first part starts with. -/
theorem exists_row_cons (first : Lexeme) (more : List Lexeme) (rest : List (List Lexeme)) :
    ∃ others, row ((first :: more) :: rest) = first :: others := by
  cases rest with
  | nil => exact ⟨more, rfl⟩
  | cons second others => exact ⟨_, rfl⟩

/-- A list with items is read item by item. -/
theorem readDatum_list {lexeme : Lexeme} {lexemes : List Lexeme} (h : lexeme ≠ .closeList) :
    readDatum (fuel + 1) (.openList :: lexeme :: lexemes) =
      (readItems fuel (lexeme :: lexemes)).map fun found => (.list found.1, found.2) := by
  rw [readDatum]
  rintro rest hcons
  exact h (List.cons.inj hcons).1

/-- An object with entries is read entry by entry. -/
theorem readDatum_object {lexeme : Lexeme} {lexemes : List Lexeme} (h : lexeme ≠ .closeObject) :
    readDatum (fuel + 1) (.openObject :: lexeme :: lexemes) =
      (readEntries fuel (lexeme :: lexemes)).map fun found => (.object found.1, found.2) := by
  rw [readDatum]
  rintro rest hcons
  exact h (List.cons.inj hcons).1

/-- A key is no bracket. -/
theorem keyLexeme_ne (key : Text) : keyLexeme key ≠ .closeObject := by
  rw [keyLexeme]
  split <;> simp

/-- With more fuel, what is one level deeper is read back as well. -/
theorem ReadsBack.succ (h : ReadsBack fuel) : ReadsBack (fuel + 1) where
  datum datum rest hlength := by
    cases datum with
    | text value => rw [Datum.lexemes, List.singleton_append, readDatum]
    | word spelling => rw [Datum.lexemes, List.singleton_append, readDatum]
    | list items =>
      rw [Datum.lexemes, List.length_cons, List.length_append, List.length_singleton] at hlength
      rw [Datum.lexemes, List.cons_append, List.append_assoc, List.singleton_append]
      cases items with
      | nil => rfl
      | cons item items =>
        have hitems := h.items item items rest (by omega)
        obtain ⟨first, more, hcons, hfirst, -⟩ := exists_lexemes_cons item
        rw [Datum.itemLexemes, hcons] at hitems ⊢
        obtain ⟨others, hrow⟩ := exists_row_cons first more (Datum.itemLexemes items)
        rw [hrow, List.cons_append] at hitems ⊢
        rw [readDatum_list hfirst, hitems]
        rfl
    | object entries =>
      rw [Datum.lexemes, List.length_cons, List.length_append, List.length_singleton] at hlength
      rw [Datum.lexemes, List.cons_append, List.append_assoc, List.singleton_append]
      cases entries with
      | nil => rfl
      | cons entry entries =>
        have hentries := h.entries entry entries rest (by omega)
        obtain ⟨key, value⟩ := entry
        rw [Datum.entryLexemes] at hentries ⊢
        obtain ⟨others, hrow⟩ := exists_row_cons (keyLexeme key) (.colon :: value.lexemes)
          (Datum.entryLexemes entries)
        rw [hrow, List.cons_append] at hentries ⊢
        rw [readDatum_object (keyLexeme_ne key), hentries]
        rfl
  items item items rest hlength := by
    rw [Datum.itemLexemes] at hlength ⊢
    cases items with
    | nil =>
      rw [Datum.itemLexemes, row] at hlength ⊢
      rw [readItems, h.datum item _ (by omega)]
    | cons second items =>
      have hitems := h.items second items rest
      rw [Datum.itemLexemes] at hlength hitems ⊢
      rw [row_cons_cons, List.length_append, List.length_cons] at hlength
      rw [row_cons_cons, List.append_assoc, readItems, h.datum item _ (by omega)]
      dsimp only [List.cons_append]
      rw [hitems (by omega)]
      rfl
  entries entry entries rest hlength := by
    obtain ⟨key, value⟩ := entry
    rw [Datum.entryLexemes] at hlength ⊢
    cases entries with
    | nil =>
      rw [Datum.entryLexemes, row, List.length_cons, List.length_cons] at hlength
      rw [Datum.entryLexemes, row, List.cons_append, List.cons_append, readEntries,
        key?_keyLexeme, h.datum value _ (by omega)]
    | cons second entries =>
      have hentries := h.entries second entries rest
      obtain ⟨secondKey, secondValue⟩ := second
      rw [Datum.entryLexemes] at hlength hentries ⊢
      rw [row_cons_cons, List.length_append, List.length_cons, List.length_cons,
        List.length_cons] at hlength
      rw [row_cons_cons, List.append_assoc, List.cons_append, List.cons_append, readEntries,
        key?_keyLexeme, h.datum value _ (by omega)]
      dsimp only [List.cons_append]
      rw [hentries (by omega)]
      rfl

/-- Everything is read back from its lexemes if there is as much fuel. -/
theorem readsBack (fuel : Nat) : ReadsBack fuel := by
  induction fuel with
  | zero =>
    refine ⟨fun datum rest h => ?_, fun _ _ _ h => absurd h (Nat.not_lt_zero _),
      fun _ _ _ h => absurd h (Nat.not_lt_zero _)⟩
    obtain ⟨first, more, hcons, -⟩ := exists_lexemes_cons datum
    rw [hcons] at h
    exact absurd h (Nat.not_succ_le_zero _)
  | succ fuel ih => exact ih.succ

/-- A text with the lexemes of a datum denotes the datum. -/
theorem read?_of_lexemes? {text : Text} {datum : Datum} (h : lexemes? text = some datum.lexemes) :
    read? text = some datum := by
  have hread := (readsBack datum.lexemes.length).datum datum [] le_rfl
  rw [List.append_nil] at hread
  rw [read?, h]
  dsimp only
  rw [hread]

/-- No line ends within quotes, and a key that is no identifier stands in quotes. -/
example : (read? "\x7b a: 'b\n' \x7d").isNone ∧ (read? "\x7b 1: [] \x7d").isNone := ⟨rfl, rfl⟩

end Reading

section Cutting

variable {mode : Mode} {first second text word : Text} {before after found : List Lexeme}

/-- The text has these lexemes, and no word is left open behind it. -/
def Firm (text : Text) (found : List Lexeme) : Prop :=
  through (.code []) text = some (found, .code [])

/-- The text starts with a character that belongs to no word. -/
def Apart (text : Text) : Prop := ∃ c rest, text = c :: rest ∧ isWordPart c = false

/-- A text is cut part by part. -/
theorem through_append (mode : Mode) (first second : Text) :
    through mode (first ++ second) = (through mode first).bind fun found =>
      (through found.2 second).map fun more => (found.1 ++ more.1, more.2) := by
  induction first generalizing mode with
  | nil =>
    rw [List.nil_append, through, Option.bind_some]
    cases through mode second <;> rfl
  | cons c rest ih =>
    rw [List.cons_append, through, through]
    cases step mode c with
    | none => rfl
    | some next =>
      dsimp only [Option.bind_some]
      rw [ih next.2]
      cases through next.2 rest with
      | none => rfl
      | some middle =>
        dsimp only [Option.bind_some, Option.map_some]
        cases through middle.2 second with
        | none => rfl
        | some last => simp

/-- Where a text is read as lexemes, cutting stands outside of quotes behind it. -/
theorem lexemes?_eq_some_iff : lexemes? text = some found ↔
    ∃ front word, through (.code []) text = some (front, .code word) ∧
      found = front ++ endWord word := by
  rw [lexemes?]
  cases through (.code []) text with
  | none => simp
  | some result =>
    obtain ⟨front, mode⟩ := result
    cases mode with
    | code word => simp [eq_comm]
    | quoted | escaped => simp

/-- A text behind which no word is open. -/
theorem Firm.lexemes? (h : Firm text found) : lexemes? text = some found :=
  lexemes?_eq_some_iff.2 ⟨found, [], h, by simp [endWord]⟩

/-- Firm texts behind each other. -/
theorem Firm.append (hfirst : Firm first before) (hsecond : Firm second after) :
    Firm (first ++ second) (before ++ after) := by
  rw [Firm, through_append, hfirst, Option.bind_some, hsecond]
  rfl

/-- Any text behind a firm one. -/
theorem Firm.followed (hfirst : Firm first before)
    (hsecond : ObjectLiteral.lexemes? second = some after) :
    ObjectLiteral.lexemes? (first ++ second) = some (before ++ after) := by
  obtain ⟨front, word, hthrough, rfl⟩ := lexemes?_eq_some_iff.1 hsecond
  refine lexemes?_eq_some_iff.2 ⟨before ++ front, word, ?_, (List.append_assoc ..).symm⟩
  rw [through_append, hfirst, Option.bind_some, hthrough]
  rfl

/-- A character that belongs to no word ends the one before it. -/
theorem step_ends {c : Char} (h : isWordPart c = false) (word : Text) :
    step (.code word) c = (step (.code []) c).map fun found => (endWord word ++ found.1, found.2) := by
  have hnone : endWord [] = [] := rfl
  simp only [step, h, Bool.false_eq_true, if_false, hnone]
  split
  · simp
  split
  · simp
  · cases sign? c <;> simp

/-- A text that starts apart ends the word before it. -/
theorem Apart.through (h : Apart second) (word : Text) : through (.code word) second =
    (through (.code []) second).map fun found => (endWord word ++ found.1, found.2) := by
  obtain ⟨c, rest, rfl, hc⟩ := h
  rw [ObjectLiteral.through, ObjectLiteral.through, step_ends hc]
  cases step (.code []) c with
  | none => rfl
  | some next =>
    dsimp only [Option.map_some, Option.bind_some]
    cases ObjectLiteral.through next.2 rest <;> simp

/-- A firm text that starts apart behind any text. -/
theorem firm_append (hfirst : lexemes? first = some before) (hsecond : Firm second after)
    (hapart : Apart second) : Firm (first ++ second) (before ++ after) := by
  obtain ⟨front, word, hthrough, rfl⟩ := lexemes?_eq_some_iff.1 hfirst
  rw [Firm, through_append, hthrough, Option.bind_some, hapart.through word, hsecond]
  simp

/-- A blank outside of words is passed over. -/
theorem through_blank {c : Char} (h : step (.code []) c = some ([], .code [])) (text : Text) :
    through (.code []) (c :: text) = through (.code []) text := by
  rw [through, h, Option.bind_some]
  cases through (.code []) text <;> rfl

/-- Line ends and the blanks behind them stand between words, so shifting changes
nothing. -/
theorem through_shift (mode : Mode) (text : Text) :
    through mode (Layout.shift text) = through mode text := by
  have hspace (text : Text) : through (.code []) (' ' :: ' ' :: text) = through (.code []) text :=
    (through_blank rfl _).trans (through_blank rfl _)
  fun_induction Layout.shift text generalizing mode with
  | case1 => rfl
  | case2 rest ih =>
    cases mode with
    | code word =>
      have hstep : step (.code word) '\n' = some (endWord word, .code []) := rfl
      rw [through, through, hstep, Option.bind_some, Option.bind_some, hspace, ih]
    | quoted | escaped => rfl
  | case3 rest ih =>
    cases mode with
    | code word =>
      have hstep : step (.code word) '\n' = some (endWord word, .code []) := rfl
      have hreturn : step (.code word) '\r' = some (endWord word, .code []) := rfl
      rw [through, through, hstep, hreturn, Option.bind_some, Option.bind_some, hspace, ih,
        through_blank rfl]
    | quoted | escaped => rfl
  | case4 c rest _ _ ih =>
    rw [through, through]
    cases step mode c with
    | none => rfl
    | some next =>
      dsimp only [Option.bind_some]
      rw [ih]

/-- Shifting a text does not change its lexemes. -/
theorem lexemes?_shift (text : Text) : lexemes? (Layout.shift text) = lexemes? text := by
  rw [lexemes?, lexemes?, through_shift]

/-- Word characters make up one word. -/
theorem lexemes?_word (hne : text ≠ []) (h : ∀ c ∈ text, isWordPart c = true) :
    lexemes? text = some [.word text] := by
  have hthrough (word : Text) : through (.code word) text = some ([], .code (word ++ text)) := by
    induction text generalizing word with
    | nil => rw [List.append_nil]; rfl
    | cons c rest ih =>
      obtain ⟨hc, hrest⟩ := List.forall_mem_cons.1 h
      have hstep : step (.code word) c = some ([], .code (word ++ [c])) := by
        simp only [step, if_pos hc]
      rw [through, hstep, Option.bind_some]
      by_cases hnil : rest = []
      · subst hnil
        rfl
      · rw [ih hnil hrest, Option.map_some, List.append_assoc]
        rfl
  refine lexemes?_eq_some_iff.2 ⟨[], text, hthrough [], ?_⟩
  rw [endWord, if_neg hne]
  rfl

/-- A text on one line is read back from its quotes. -/
theorem firm_quote (h : Text.OneLine text) : Firm (Text.quote text) [.text text] := by
  have hescape (read : Text) : through (.quoted read) (Text.escape text ++ ['\'']) =
      some ([.text (read ++ text)], .code []) := by
    induction text generalizing read with
    | nil =>
      rw [List.append_nil]
      rfl
    | cons c rest ih =>
      obtain ⟨hline, hrest⟩ := List.forall_mem_cons.1 h
      have hnext : through (.quoted (read ++ [c])) (Text.escape rest ++ ['\'']) =
          some ([.text (read ++ c :: rest)], .code []) := by
        rw [ih hrest, List.append_assoc]
        rfl
      rw [Text.escape]
      split
      · next hspecial =>
        have hslash : step (.quoted read) '\\' = some ([], .escaped read) := rfl
        have hstep : step (.escaped read) c = some ([], .quoted (read ++ [c])) := by
          simp only [step, if_pos hspecial]
        rw [List.cons_append, List.cons_append, through, hslash, Option.bind_some, through, hstep,
          Option.bind_some, hnext]
        rfl
      · next hplain =>
        obtain ⟨hslash, hquote⟩ := not_or.1 hplain
        have hstep : step (.quoted read) c = some ([], .quoted (read ++ [c])) := by
          simp only [step, if_neg hquote, if_neg hslash, hline, Bool.false_eq_true, if_false]
        rw [List.cons_append, through, hstep, Option.bind_some, hnext]
        rfl
  have hopen : step (.code []) '\'' = some ([], .quoted []) := rfl
  rw [Firm, Text.quote, through, hopen, Option.bind_some, hescape []]
  rfl

/-- Characters of names belong to words. -/
theorem isWordPart_of_named {c : Char} (h : Calls.startsName (some c) = false) :
    isWordPart c = true := by
  simp only [Calls.startsName, Bool.not_eq_false'] at h
  simp only [isWordPart, h, Bool.true_or]

/-- Characters of numbers belong to words. -/
theorem isWordPart_of_isNumeral {c : Char} (h : Text.isNumeral c = true) :
    isWordPart c = true := by
  simp only [Text.isNumeral, Bool.or_eq_true, beq_iff_eq] at h
  rcases h with (((hletter | rfl) | rfl) | rfl) | rfl
  · exact isWordPart_of_named (Calls.startsName_of_isAlphanum hletter)
  all_goals rfl

/-- A name is one word. -/
theorem lexemes?_dotted {name : Text} (h : name.IsDotted) : lexemes? name = some [.word name] :=
  lexemes?_word h.ne_nil fun _ hc => isWordPart_of_named (Text.startsName_of_isDotted h hc)

/-- A key of an object is one lexeme. -/
theorem lexemes?_propertyKey {name : Text} (h : name.OneLine) :
    lexemes? (Text.propertyKey name) = some [keyLexeme name] := by
  rw [Text.propertyKey, keyLexeme]
  split
  · next hidentifier => exact lexemes?_dotted (Text.isDotted_of_isIdentifier hidentifier)
  · exact (firm_quote h).lexemes?

end Cutting


end ObjectLiteral

end InterfaceSchema
