import InterfaceSchema.Proofs.Json.Scalars
import InterfaceSchema.Proofs.Json.Told

/-!
# Trees that are spelled

A document is read back from each of its spellings: what is read tells the tree that is
spelled there. Lists and objects are read item by item and member by member; each of them
takes one turn for its blanks and one for itself, which the bound of the recursion has to
allow.
-/

namespace InterfaceSchema.Json

variable {lenient : Bool} {count position : Nat} {text rest first next more : Text} {c : Char}
  {tree : Tree}

/-- What is left behind something is shorter. -/
theorem length_lt_append {front rest : Text} (h : front ≠ []) :
    rest.length < (front ++ rest).length := by
  have := List.length_pos_of_ne_nil h
  rw [List.length_append]
  omega

/-- A numeral starts with a sign or a digit. -/
theorem Numeral.head {numeral : Numeral} (h : numeral.Sound) :
    ∃ c more, numeral.spelling = c :: more ∧ (c = '-' ∨ c.isDigit = true) := by
  obtain ⟨d, digits, hwhole⟩ := List.exists_cons_of_ne_nil h.whole.1
  cases hnegative : numeral.negative with
  | true => exact ⟨'-', _, by simp [Numeral.spelling, hnegative]; rfl, .inl rfl⟩
  | false =>
    exact ⟨d, _, by simp [Numeral.spelling, hnegative, hwhole]; rfl,
      .inr (h.whole.2 d (by simp [hwhole]))⟩

/-- The spelling of a value starts with neither a blank nor the end of a list. -/
theorem Spells.head (h : Spells lenient text tree rest) :
    ∃ c more, text = c :: more ∧ isBlank c = false ∧ c ≠ ']' := by
  cases h with
  | null => exact ⟨'n', _, rfl, by decide⟩
  | flag value => cases value <;> exact ⟨_, _, rfl, by decide⟩
  | number h =>
    obtain ⟨c, more, hspelling, hc⟩ := Numeral.head h
    refine ⟨c, more ++ rest, by rw [hspelling, List.cons_append], ?_, ?_⟩
    · by_contra hblank
      simp only [isBlank, Bool.not_eq_false, Bool.or_eq_true, beq_iff_eq] at hblank
      rcases hblank with ((rfl | rfl) | rfl) | rfl <;> revert hc <;> decide
    · rintro rfl
      revert hc
      decide
  | text h => exact ⟨'"', _, rfl, by decide⟩
  | emptyList h => exact ⟨'[', _, rfl, by decide⟩
  | list hskip h => exact ⟨'[', _, rfl, by decide⟩
  | emptyObject h => exact ⟨'\x7b', _, rfl, by decide⟩
  | object hskip h horder => exact ⟨'\x7b', _, rfl, by decide⟩

/-- The spelling of items starts as the first of them does. -/
theorem SpellsItems.head {items : List Tree} (h : SpellsItems lenient text items rest) :
    ∃ c more, text = c :: more ∧ isBlank c = false ∧ c ≠ ']' := by
  cases h with
  | last hitem => exact hitem.head
  | more hitem => exact hitem.head

/-- The spelling of members starts with a quote. -/
theorem SpellsMembers.head {members : List TreeMember}
    (h : SpellsMembers lenient text members rest) : ∃ more, text = '"' :: more := by
  cases h <;> exact ⟨_, rfl⟩

section Steps

/-- A character that is no blank stops the skipping of blanks. -/
theorem stopsAt_cons (h : isBlank c = false) : StopsAt isBlank (c :: more) := by
  rintro d _ ⟨⟩
  exact h

/-- Blanks are skipped before a character that is none. -/
theorem skipBlanks_of_skips_cons (position : Nat) (hskip : Skips text (c :: more))
    (h : isBlank c = false) : ∃ later, skipBlanks ⟨text, position⟩ = ⟨c :: more, later⟩ :=
  skipBlanks_of_skips position hskip (stopsAt_cons h)

/-- Behind a sign or a digit a number is read. -/
theorem readValue_numeral (count position : Nat) (hc : c = '-' ∨ c.isDigit = true) :
    readValue (count + 1) ⟨c :: more, position⟩ = readNumber ⟨c :: more, position⟩ := by
  simp only [readValue]
  split
  case h_7 => rw [if_pos hc]
  all_goals exact absurd hc (by decide)

/-- A string is read behind its opening quote. -/
theorem readValue_string (count : Nat) {value : Text} {after : Cursor}
    (h : readQuoted ⟨text, position + 1⟩ = .closed (.ok value) after) : ∃ span,
      readValue (count + 1) ⟨'"' :: text, position⟩ = (.text value span, some after) :=
  ⟨after.spanFrom ⟨'"' :: text, position⟩, by
    simp [readValue, readString, Cursor.next, show '"'.utf8Size = 1 from rfl, h]⟩

/-- A list is read behind its opening bracket. -/
theorem readValue_list {items : List Value} {after : Cursor}
    (h : readItems count true ⟨text, position + 1⟩ = (items, some after)) : ∃ span,
      readValue (count + 1) ⟨'[' :: text, position⟩ = (.list items span, some after) :=
  ⟨after.spanFrom ⟨'[' :: text, position⟩, by
    simp [readValue, Cursor.next, show '['.utf8Size = 1 from rfl, h]⟩

/-- An object is read behind its opening brace. -/
theorem readValue_table {entries : List Entry} {after : Cursor}
    (h : readEntries count true ⟨text, position + 1⟩ = (entries, some after)) : ∃ span,
      readValue (count + 1) ⟨'\x7b' :: text, position⟩ = (.table entries span, some after) :=
  ⟨after.spanFrom ⟨'\x7b' :: text, position⟩, by
    simp [readValue, Cursor.next, show '\x7b'.utf8Size = 1 from rfl, h]⟩

/-- The first item is read where the blanks end. -/
theorem readItems_first (count position : Nat) (hskip : Skips text (c :: more))
    (hblank : isBlank c = false) (hc : c ≠ ']') : ∃ later,
      readItems (count + 1) true ⟨text, position⟩ = readItem count ⟨c :: more, later⟩ := by
  obtain ⟨later, h⟩ := skipBlanks_of_skips_cons position hskip hblank
  exact ⟨later, by simp [readItems, h]⟩

/-- The next item is read behind a comma and blanks. -/
theorem readItems_comma (count position : Nat) (hcomma : Skips text (',' :: next))
    (hskip : Skips next (c :: more)) (hblank : isBlank c = false) (hc : c ≠ ']') : ∃ later,
      readItems (count + 1) false ⟨text, position⟩ = readItem count ⟨c :: more, later⟩ := by
  obtain ⟨place, hplace⟩ := skipBlanks_of_skips_cons position hcomma rfl
  obtain ⟨later, h⟩ := skipBlanks_of_skips_cons (place + 1) hskip hblank
  exact ⟨later, by simp [readItems, hplace, Cursor.next, show ','.utf8Size = 1 from rfl, h, hc]⟩

/-- A list ends at its bracket. -/
theorem readItems_close (count : Nat) (isFirst : Bool) (position : Nat)
    (h : Skips text (']' :: rest)) : ∃ later,
      readItems (count + 1) isFirst ⟨text, position⟩ = ([], some ⟨rest, later⟩) := by
  obtain ⟨place, hplace⟩ := skipBlanks_of_skips_cons position h rfl
  exact ⟨place + ']'.utf8Size, by simp [readItems, hplace, Cursor.next]⟩

/-- The first entry is read where the blanks end. -/
theorem readEntries_first (count position : Nat) (hskip : Skips text ('"' :: more)) : ∃ later,
    readEntries (count + 1) true ⟨text, position⟩ = readEntry count ⟨'"' :: more, later⟩ := by
  obtain ⟨later, h⟩ := skipBlanks_of_skips_cons position hskip rfl
  exact ⟨later, by simp [readEntries, h]⟩

/-- The next entry is read behind a comma and blanks. -/
theorem readEntries_comma (count position : Nat) (hcomma : Skips text (',' :: next))
    (hskip : Skips next ('"' :: more)) : ∃ later,
      readEntries (count + 1) false ⟨text, position⟩ = readEntry count ⟨'"' :: more, later⟩ := by
  obtain ⟨place, hplace⟩ := skipBlanks_of_skips_cons position hcomma rfl
  obtain ⟨later, h⟩ := skipBlanks_of_skips_cons (place + 1) hskip rfl
  exact ⟨later, by simp [readEntries, hplace, Cursor.next, show ','.utf8Size = 1 from rfl, h]⟩

/-- An object ends at its brace. -/
theorem readEntries_close (count : Nat) (isFirst : Bool) (position : Nat)
    (h : Skips text ('\x7d' :: rest)) : ∃ later,
      readEntries (count + 1) isFirst ⟨text, position⟩ = ([], some ⟨rest, later⟩) := by
  obtain ⟨place, hplace⟩ := skipBlanks_of_skips_cons position h rfl
  exact ⟨place + '\x7d'.utf8Size, by simp [readEntries, hplace, Cursor.next]⟩

/-- An entry is its key and the value behind the colon; the entries after it follow. -/
theorem readEntry_of_value (position : Nat) {key after behind : Text}
    (hkey : SpellsText text key after) (hcolon : Skips after (':' :: next))
    (hskip : Skips next (c :: more)) (hblank : isBlank c = false)
    (hvalue : ∀ position, ∃ value place,
      readValue count ⟨c :: more, position⟩ = (value, some ⟨behind, place⟩) ∧
        Tells lenient tree value) :
    ∃ afterKey value place, Tells lenient tree value ∧
      readEntry (count + 1) ⟨'"' :: text, position⟩ =
        (⟨.ok key, afterKey, value⟩ :: (readEntries count false ⟨behind, place⟩).1,
          (readEntries count false ⟨behind, place⟩).2) := by
  obtain ⟨quoted, hquoted⟩ := readQuoted_of_spellsText hkey (position + 1)
  obtain ⟨colon, hcolon⟩ := skipBlanks_of_skips_cons quoted hcolon rfl
  obtain ⟨later, h⟩ := skipBlanks_of_skips_cons (colon + 1) hskip hblank
  obtain ⟨value, place, hread, htells⟩ := hvalue later
  refine ⟨positionAfterKey ⟨':' :: next, colon⟩, value, place, htells, ?_⟩
  simp [readEntry, Cursor.next, show '"'.utf8Size = 1 from rfl, show ':'.utf8Size = 1 from rfl,
    hquoted, hcolon, h, hread]

end Steps

/-- With this bound every spelling that is short enough is read back. -/
structure ReadsBack (lenient : Bool) (count : Nat) : Prop where
  value {text rest : Text} {tree : Tree} (h : Spells lenient text tree rest) (hrest : Ends rest)
    (hcount : 4 * text.length ≤ count) (position : Nat) :
    ∃ value later, readValue count ⟨text, position⟩ = (value, some ⟨rest, later⟩) ∧
      Tells lenient tree value ∧ rest.length < text.length
  items {text rest : Text} {items : List Tree} (h : SpellsItems lenient text items rest)
    (hcount : 4 * text.length + 1 ≤ count) (position : Nat) :
    ∃ values later, readItem count ⟨text, position⟩ = (values, some ⟨rest, later⟩) ∧
      TellsItems lenient items values ∧ rest.length < text.length
  members {text rest : Text} {members : List TreeMember}
    (h : SpellsMembers lenient text members rest) (hcount : 4 * text.length + 1 ≤ count)
    (position : Nat) :
    ∃ entries later, readEntry count ⟨text, position⟩ = (entries, some ⟨rest, later⟩) ∧
      TellsMembers lenient members entries ∧ rest.length < text.length

namespace ReadsBack

/-- A value is read with a greater bound. -/
theorem value_succ (ih : ∀ less ≤ count, ReadsBack lenient less)
    (h : Spells lenient text tree rest) (hrest : Ends rest)
    (hcount : 4 * text.length ≤ count + 1) (position : Nat) :
    ∃ value later, readValue (count + 1) ⟨text, position⟩ = (value, some ⟨rest, later⟩) ∧
      Tells lenient tree value ∧ rest.length < text.length := by
  cases h with
  | null =>
    obtain ⟨span, later, hread⟩ := readWord_append ⟨"null" ++ rest, position⟩
      Value.null "null" rest position
    exact ⟨_, later, by simpa [readValue] using hread, ⟨span, rfl⟩,
      length_lt_append (by decide)⟩
  | flag flag =>
    cases flag with
    | true =>
      obtain ⟨span, later, hread⟩ := readWord_append ⟨"true" ++ rest, position⟩
        (Value.flag true) "true" rest position
      exact ⟨_, later, by simpa [readValue] using hread, ⟨span, rfl⟩,
        length_lt_append (by decide)⟩
    | false =>
      obtain ⟨span, later, hread⟩ := readWord_append ⟨"false" ++ rest, position⟩
        (Value.flag false) "false" rest position
      exact ⟨_, later, by simpa [readValue] using hread, ⟨span, rfl⟩,
        length_lt_append (by decide)⟩
  | @number numeral _ h hrange =>
    obtain ⟨value, later, hread, htells⟩ := readNumber_spelling h hrange hrest position
    obtain ⟨c, more, hspelling, hc⟩ := Numeral.head h
    rw [hspelling] at hread ⊢
    exact ⟨value, later, (readValue_numeral _ _ hc).trans hread, htells,
      length_lt_append (List.cons_ne_nil _ _)⟩
  | @text text value _ h =>
    obtain ⟨later, hread⟩ := readQuoted_of_spellsText h (position + 1)
    obtain ⟨span, hvalue⟩ := readValue_string count hread
    exact ⟨_, later, hvalue, ⟨span, rfl⟩, Nat.lt_succ_of_lt h.length_lt⟩
  | @emptyList text _ h =>
    obtain ⟨less, rfl⟩ : ∃ less, count = less + 1 := ⟨count - 1, by simp at hcount; omega⟩
    obtain ⟨later, hread⟩ := readItems_close less true (position + 1) h
    obtain ⟨span, hvalue⟩ := readValue_list hread
    have hshort := h.length_le
    refine ⟨_, later, hvalue, ⟨[], span, rfl, rfl⟩, ?_⟩
    simp only [List.length_cons] at hshort ⊢
    omega
  | @list text first _ items hskip h =>
    obtain ⟨less, rfl⟩ : ∃ less, count = less + 1 := ⟨count - 1, by simp at hcount; omega⟩
    have hshort := hskip.length_le
    simp only [List.length_cons] at hcount
    obtain ⟨c, more, rfl, hblank, hc⟩ := h.head
    obtain ⟨place, hfirst⟩ := readItems_first less (position + 1) hskip
      hblank hc
    obtain ⟨values, later, hread, htells, hless⟩ :=
      (ih less (by omega)).items h (by omega) place
    obtain ⟨span, hvalue⟩ := readValue_list (hfirst.trans hread)
    refine ⟨_, later, hvalue, ⟨values, span, rfl, htells⟩, ?_⟩
    simp only [List.length_cons] at hless hshort ⊢
    omega
  | @emptyObject text _ h =>
    obtain ⟨less, rfl⟩ : ∃ less, count = less + 1 := ⟨count - 1, by simp at hcount; omega⟩
    obtain ⟨later, hread⟩ := readEntries_close less true (position + 1) h
    obtain ⟨span, hvalue⟩ := readValue_table hread
    have hshort := h.length_le
    refine ⟨_, later, hvalue, ⟨[], span, [], rfl, .nil, rfl⟩, ?_⟩
    simp only [List.length_cons] at hshort ⊢
    omega
  | @object text first _ spelled members hskip h horder =>
    obtain ⟨less, rfl⟩ : ∃ less, count = less + 1 := ⟨count - 1, by simp at hcount; omega⟩
    have hshort := hskip.length_le
    simp only [List.length_cons] at hcount
    obtain ⟨more, rfl⟩ := h.head
    obtain ⟨place, hfirst⟩ := readEntries_first less (position + 1) hskip
    obtain ⟨entries, later, hread, htells, hless⟩ :=
      (ih less (by omega)).members h (by omega) place
    obtain ⟨span, hvalue⟩ := readValue_table (hfirst.trans hread)
    refine ⟨_, later, hvalue, tells_object horder htells span, ?_⟩
    simp only [List.length_cons] at hless hshort ⊢
    omega

/-- A comma, a bracket or a brace behind blanks may follow a value. -/
theorem ends_of_skips (h : Skips text (c :: rest)) (hc : c = ',' ∨ c = ']' ∨ c = '\x7d') :
    Ends text := h.ends fun d more heq => by
  obtain rfl : c = d := by simpa using congrArg List.head? heq
  exact .inr hc

/-- Items are read with a greater bound. -/
theorem items_succ (ih : ∀ less ≤ count, ReadsBack lenient less) {items : List Tree}
    (h : SpellsItems lenient text items rest) (hcount : 4 * text.length + 1 ≤ count + 1)
    (position : Nat) :
    ∃ values later, readItem (count + 1) ⟨text, position⟩ = (values, some ⟨rest, later⟩) ∧
      TellsItems lenient items values ∧ rest.length < text.length := by
  cases h with
  | @last _ after _ item hitem hclose =>
    obtain ⟨value, place, hread, htells, hless⟩ := (ih count le_rfl).value hitem
      (ends_of_skips hclose (.inr (.inl rfl))) (by omega) position
    obtain ⟨less, rfl⟩ : ∃ less, count = less + 1 := ⟨count - 1, by omega⟩
    obtain ⟨later, hend⟩ := readItems_close less false place
      hclose
    have hshort := hclose.length_le
    refine ⟨[value], later, by simp [readItem, hread, hend], ⟨value, [], rfl, htells, rfl⟩, ?_⟩
    simp only [List.length_cons] at hshort
    omega
  | @more _ after next first _ item items hitem hcomma hskip h =>
    obtain ⟨value, place, hread, htells, hless⟩ := (ih count le_rfl).value hitem
      (ends_of_skips hcomma (.inl rfl)) (by omega) position
    have hshort := hcomma.length_le
    have hshort' := hskip.length_le
    simp only [List.length_cons] at hshort
    obtain ⟨c, more, rfl, hblank, hc⟩ := h.head
    obtain ⟨less, rfl⟩ : ∃ less, count = less + 1 := ⟨count - 1, by omega⟩
    obtain ⟨behind, hnext⟩ := readItems_comma less place hcomma hskip
      hblank hc
    obtain ⟨values, later, hitems, hrest, hless'⟩ :=
      (ih less (by omega)).items h (by omega) behind
    refine ⟨value :: values, later, by simp [readItem, hread, hnext, hitems],
      ⟨value, values, rfl, htells, hrest⟩, by omega⟩

/-- One member is read with a greater bound. -/
theorem member_succ (ih : ReadsBack lenient count) {key after behind : Text}
    (hkey : SpellsText text key after) (hcolon : Skips after (':' :: next))
    (hskip : Skips next first) (hvalue : Spells lenient first tree behind) (hends : Ends behind)
    (hcount : 4 * text.length ≤ count) (position : Nat) :
    ∃ afterKey value place, Tells lenient tree value ∧
      readEntry (count + 1) ⟨'"' :: text, position⟩ =
        (⟨.ok key, afterKey, value⟩ :: (readEntries count false ⟨behind, place⟩).1,
          (readEntries count false ⟨behind, place⟩).2) ∧
      behind.length < text.length := by
  have hafter := hkey.length_lt
  have hnext := hcolon.length_le
  have hfirst := hskip.length_le
  simp only [List.length_cons] at hnext
  obtain ⟨c, more, rfl, hblank, -⟩ := hvalue.head
  have hread := ih.value hvalue hends (by omega)
  obtain ⟨-, -, -, -, hbehind⟩ := hread 0
  obtain ⟨afterKey, value, place, htells, hentry⟩ := readEntry_of_value position hkey hcolon hskip
    hblank fun place => (hread place).imp fun _ h => h.imp fun _ h => ⟨h.1, h.2.1⟩
  exact ⟨afterKey, value, place, htells, hentry, by omega⟩

/-- Members are read with a greater bound. -/
theorem members_succ (ih : ∀ less ≤ count, ReadsBack lenient less) {members : List TreeMember}
    (h : SpellsMembers lenient text members rest) (hcount : 4 * text.length + 1 ≤ count + 1)
    (position : Nat) :
    ∃ entries later, readEntry (count + 1) ⟨text, position⟩ = (entries, some ⟨rest, later⟩) ∧
      TellsMembers lenient members entries ∧ rest.length < text.length := by
  cases h with
  | @last text key after next first behind _ value hkey hcolon hskip hvalue hclose =>
    have hrest := hclose.length_le
    simp only [List.length_cons] at hcount hrest ⊢
    obtain ⟨afterKey, told, place, htells, hentry, hbehind⟩ := member_succ (ih count le_rfl) hkey
      hcolon hskip hvalue (ends_of_skips hclose (.inr (.inr rfl))) (by omega) position
    obtain ⟨less, rfl⟩ : ∃ less, count = less + 1 := ⟨count - 1, by omega⟩
    obtain ⟨later, hend⟩ := readEntries_close less false place hclose
    exact ⟨_, later, by rw [hentry, hend], ⟨afterKey, told, [], rfl, htells, rfl⟩, by omega⟩
  | @more text key after next first behind later second _ value members hkey hcolon hskip hvalue
      hcomma hagain h =>
    have hlater := hcomma.length_le
    have hsecond := hagain.length_le
    simp only [List.length_cons] at hcount hlater ⊢
    obtain ⟨afterKey, told, place, htells, hentry, hbehind⟩ := member_succ (ih count le_rfl) hkey
      hcolon hskip hvalue (ends_of_skips hcomma (.inl rfl)) (by omega) position
    obtain ⟨less, rfl⟩ : ∃ less, count = less + 1 := ⟨count - 1, by omega⟩
    obtain ⟨more, rfl⟩ := h.head
    obtain ⟨again, hcontinue⟩ := readEntries_comma less place hcomma hagain
    obtain ⟨entries, last, hentries, hmembers, hless⟩ :=
      (ih less (by omega)).members h (by omega) again
    exact ⟨_, last, by rw [hentry, hcontinue, hentries],
      ⟨afterKey, told, entries, rfl, htells, hmembers⟩, by omega⟩

/-- Every spelling is read back if the bound is great enough. -/
theorem all (lenient : Bool) (count : Nat) : ReadsBack lenient count := by
  induction count using Nat.strong_induction_on with
  | _ count ih =>
    cases count with
    | zero =>
      refine ⟨fun h _ hcount _ => ?_, fun h hcount => ?_, fun h hcount => ?_⟩
      · obtain ⟨c, more, rfl, -⟩ := h.head
        simp at hcount
      · omega
      · omega
    | succ count =>
      have ih' : ∀ less ≤ count, ReadsBack lenient less := fun less h => ih less (by omega)
      exact ⟨value_succ ih', items_succ ih', members_succ ih'⟩

end ReadsBack

/-- The document of a text tells the tree that the text spells, and nothing follows it. -/
theorem Document.read_of_isTextOf (h : IsTextOf lenient tree text) :
    Tells lenient tree (Document.read text).root ∧ (Document.read text).trailing = none := by
  obtain ⟨first, rest, hskip, hspells, hrest⟩ := h
  obtain ⟨c, more, rfl, hblank, -⟩ := hspells.head
  obtain ⟨start, hstart⟩ := skipBlanks_of_skips_cons 0 hskip hblank
  have hshort := hskip.length_le
  have hends : Ends rest := hrest.ends fun _ _ heq => absurd heq nofun
  obtain ⟨value, place, hread, htells, -⟩ :=
    (ReadsBack.all lenient (4 * text.length + 4)).value hspells hends (by omega) start
  obtain ⟨later, hlast⟩ := skipBlanks_of_skips place hrest
    fun _ _ heq => absurd heq nofun
  have hdocument : Document.read text = ⟨value, none⟩ := by
    simp only [Document.read, Cursor.start, hstart, hread, hlast, List.isEmpty_nil, if_true]
  rw [hdocument]
  exact ⟨htells, rfl⟩

end InterfaceSchema.Json
