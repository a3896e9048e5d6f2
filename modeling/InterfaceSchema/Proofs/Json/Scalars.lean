import InterfaceSchema.Proofs.Json.Trees

/-!
# Scalars that are spelled

A word, a string or a number is read back from each of its spellings: what is read tells
what is spelled there, and reading goes on where the spelling ends. A number is refused
at most for being too great, and such a number can still be passed over.
-/

namespace InterfaceSchema.Json

/-- The text is empty or starts with a character that does not have the property. -/
def StopsAt (p : Char → Bool) (text : Text) : Prop := ∀ c more, text = c :: more → p c = false

/-- The text is empty or starts with what may follow a value. -/
def Ends (text : Text) : Prop :=
  ∀ c more, text = c :: more → isBlank c = true ∨ c = ',' ∨ c = ']' ∨ c = '\x7d'

section Stretches

variable {p : Char → Bool} {front rest text : Text} (position : Nat)

/-- A stretch of characters with a property is taken as a whole. -/
theorem taken_of_stopsAt (hfront : ∀ c ∈ front, p c = true) (hrest : StopsAt p rest) :
    (Cursor.mk (front ++ rest) position).taken p = front := by
  have hnone : rest.takeWhile p = [] := by
    cases rest with
    | nil => rfl
    | cons c more => simp [hrest c more rfl]
  simp [Cursor.taken, List.takeWhile_append_of_pos hfront, hnone]

/-- A stretch of characters with a property is dropped as a whole. -/
theorem dropWhile_of_stopsAt (hfront : ∀ c ∈ front, p c = true) (hrest : StopsAt p rest) :
    ∃ later, (Cursor.mk (front ++ rest) position).dropWhile p = ⟨rest, later⟩ := by
  have hnone : rest.dropWhile p = rest := by
    cases rest with
    | nil => rfl
    | cons c more => simp [hrest c more rfl]
  exact ⟨_, by simp only [Cursor.dropWhile, List.dropWhile_append_of_pos hfront, hnone]; rfl⟩

/-- Blanks are skipped. -/
theorem skipBlanks_of_skips (h : Skips text rest) (hrest : StopsAt isBlank rest) :
    ∃ later, skipBlanks ⟨text, position⟩ = ⟨rest, later⟩ := by
  obtain ⟨blanks, rfl, hblanks⟩ := h
  exact dropWhile_of_stopsAt position hblanks hrest

/-- A text with only blanks before what may follow a value is such a text itself. -/
theorem Skips.ends (h : Skips text rest) (hrest : Ends rest) : Ends text := by
  obtain ⟨_ | ⟨blank, blanks⟩, rfl, hblanks⟩ := h
  · exact hrest
  · intro c more heq
    obtain rfl : blank = c := by simpa using congrArg List.head? heq
    exact .inl (hblanks _ (by simp))

/-- What is left behind blanks is not longer. -/
theorem Skips.length_le (h : Skips text rest) : rest.length ≤ text.length := by
  obtain ⟨blanks, rfl, -⟩ := h
  simp

end Stretches

/-- A word is read. -/
theorem readWord_append (start : Cursor) (value : Span → Value) (word rest : Text)
    (position : Nat) : ∃ span later,
      readWord start value word ⟨word ++ rest, position⟩ = (value span, some ⟨rest, later⟩) := by
  induction word generalizing position with
  | nil => exact ⟨_, _, rfl⟩
  | cons c word ih =>
    obtain ⟨span, later, h⟩ := ih (position + c.utf8Size)
    exact ⟨span, later, by simpa [readWord, Cursor.next] using h⟩

section Strings

variable {text value rest digits kept : Text} {lead : Option Nat}

/-- Only as many digits as are asked for count. -/
theorem hexNumber?_append (h : digits.length = 4) (text : Text) :
    Text.hexNumber? 4 (digits ++ text) = Text.hexNumber? 4 digits := by
  have hfrom : ∀ (digits : Text) (value : Nat),
      Text.hexNumberFrom? value digits.length (digits ++ text) =
        Text.hexNumberFrom? value digits.length digits := by
    intro digits
    induction digits with
    | nil => simp [Text.hexNumberFrom?]
    | cons c digits ih => simp [Text.hexNumberFrom?, ih]
  simpa [Text.hexNumber?, h] using hfrom digits 0

/-- The digits of an escape are passed over once it has been read. -/
theorem QuotedState.read_skip (kept : Text) (lead : Option Nat) (digits text : Text)
    (position : Nat) : ∃ later,
      QuotedState.read ⟨position, kept, none, lead, false, digits.length⟩ (digits ++ text) =
        QuotedState.read ⟨later, kept, none, lead, false, 0⟩ text := by
  induction digits generalizing position with
  | nil => exact ⟨position, rfl⟩
  | cons c digits ih =>
    obtain ⟨later, h⟩ := ih (position + c.utf8Size)
    exact ⟨later, by simpa [QuotedState.read] using h⟩

/-- A simple escape stands for its character. -/
theorem escapedChar?_of_mem {mark c : Char} (h : (mark, c) ∈ simpleEscapes) :
    escapedChar? mark = some c ∧ mark ≠ 'u' := by
  simp only [simpleEscapes, List.mem_cons, Prod.mk.injEq, List.not_mem_nil, or_false] at h
  rcases h with ⟨rfl, rfl⟩ | ⟨rfl, rfl⟩ | ⟨rfl, rfl⟩ | ⟨rfl, rfl⟩ | ⟨rfl, rfl⟩ | ⟨rfl, rfl⟩ |
    ⟨rfl, rfl⟩ | ⟨rfl, rfl⟩ <;> decide

/-- The number of a character is not a half of a pair of units. -/
theorem not_isLeading_toNat (c : Char) :
    isLeading c.toNat = false ∧ isTrailing c.toNat = false := by
  have h : c.toNat < 0xD800 ∨ 0xDFFF < c.toNat ∧ c.toNat < 0x110000 := c.valid
  simp only [isLeading, isTrailing, Bool.and_eq_false_iff, decide_eq_false_iff_not]
  omega

/-- A string is read back from its spelling. -/
theorem QuotedState.read_of_spellsText (h : SpellsText text value rest) (kept : Text)
    (position : Nat) : ∃ later,
      QuotedState.read ⟨position, kept, none, none, false, 0⟩ text =
        .closed (.ok (kept.reverse ++ value)) ⟨rest, later⟩ := by
  induction h generalizing kept position with
  | nil =>
    exact ⟨position + 1, by simp [QuotedState.read, QuotedState.close, QuotedState.settle]⟩
  | @plain c text value rest hquote hslash hcontrol _ ih =>
    obtain ⟨later, h⟩ := ih (c :: kept) (position + c.utf8Size)
    exact ⟨later, by
      simpa [QuotedState.read, hquote, hslash, Nat.not_lt.mpr hcontrol, QuotedState.push,
        QuotedState.settle] using h⟩
  | @escape mark c text value rest hescape _ ih =>
    obtain ⟨hchar, hmark⟩ := escapedChar?_of_mem hescape
    obtain ⟨later, h⟩ := ih (c :: kept) (position + 1 + 1)
    exact ⟨later, by
      simpa [QuotedState.read, hmark, hchar, QuotedState.push, QuotedState.settle] using h⟩
  | @unit c digits text value rest hlength hdigits _ ih =>
    obtain ⟨behind, hskip⟩ := QuotedState.read_skip (c :: kept) none digits text (position + 1 + 1)
    obtain ⟨later, h⟩ := ih (c :: kept) behind
    obtain ⟨hlead, htrail⟩ := not_isLeading_toNat c
    rw [hlength] at hskip
    exact ⟨later, by
      simpa [QuotedState.read, hexNumber?_append hlength, hdigits, QuotedState.unit, hlead, htrail,
        hskip] using h⟩
  | @pair c lead trail first second text value rest hfirst hlead hsecond htrail hleading htrailing
      hc _ ih =>
    obtain ⟨between, hskip⟩ := QuotedState.read_skip kept (some lead) first
      ('\\' :: 'u' :: (second ++ text)) (position + 1 + 1)
    obtain ⟨behind, hskip'⟩ := QuotedState.read_skip (c :: kept) none second text (between + 1 + 1)
    obtain ⟨later, h⟩ := ih (c :: kept) behind
    have hnot : isTrailing lead = false := by simp [isTrailing]; omega
    have his : isLeading lead = true := by simpa [isLeading] using hleading
    have hend : isTrailing trail = true := by simpa [isTrailing] using htrailing
    have hchar : Char.ofNat (0x10000 + (lead - 0xD800) * 0x400 + (trail - 0xDC00)) = c := by
      rw [← hc, Char.ofNat_toNat]
    rw [hfirst] at hskip
    rw [hsecond] at hskip'
    refine ⟨later, ?_⟩
    simp only [QuotedState.read, QuotedState.unit, hexNumber?_append hfirst, hlead, hnot, his,
      Nat.lt_irrefl, if_false, if_true, Bool.false_eq_true, hskip, hexNumber?_append hsecond,
      htrail, hend, hchar, hskip']
    simpa using h

/-- A string is read back from its spelling, behind the opening quote. -/
theorem readQuoted_of_spellsText (h : SpellsText text value rest) (position : Nat) :
    ∃ later, readQuoted ⟨text, position⟩ = .closed (.ok value) ⟨rest, later⟩ :=
  QuotedState.read_of_spellsText h [] position

/-- The spelling of a string takes a character at least. -/
theorem SpellsText.length_lt (h : SpellsText text value rest) : rest.length < text.length := by
  induction h <;> simp only [List.length_cons, List.length_append] <;> omega

end Strings

section Numbers

variable {digits text rest : Text} {position : Nat}

/-- What may follow a number is not a part of it. -/
theorem Ends.head_ne (h : Ends rest) {c : Char} {more : Text} (hrest : rest = c :: more) :
    c.isDigit = false ∧ c ≠ '.' ∧ c ≠ 'e' ∧ c ≠ 'E' := by
  rcases h c more hrest with hblank | rfl | rfl | rfl
  · simp only [isBlank, Bool.or_eq_true, beq_iff_eq] at hblank
    rcases hblank with ((rfl | rfl) | rfl) | rfl <;> decide
  all_goals decide

/-- A digit is neither a sign nor one of the marks in a numeral. -/
theorem ne_of_isDigit {c : Char} (h : c.isDigit = true) :
    c ≠ '+' ∧ c ≠ '-' ∧ c ≠ '.' ∧ c ≠ 'e' ∧ c ≠ 'E' := by
  refine ⟨?_, ?_, ?_, ?_, ?_⟩ <;> rintro rfl <;> revert h <;> decide

/-- An exponent is read as its sign and digits say. -/
theorem readExponent_of_sound {exponent : NumeralExponent} (h : exponent.Sound)
    (hrest : Ends rest) (position : Nat) : ∃ inside later,
      readExponent ⟨exponent.spelling ++ rest, position⟩ =
        .ok (some (exponentOf (exponent.sign = some '-') inside exponent.digits),
          ⟨rest, later⟩) := by
  obtain ⟨hmark, hsign, hdigits⟩ := h
  obtain ⟨mark, sign, _ | ⟨d, digits⟩⟩ := exponent
  · exact absurd rfl hdigits.1
  have hstops : StopsAt Char.isDigit rest := fun c more hcons => (hrest.head_ne hcons).1
  have hread (place : Nat) := taken_of_stopsAt place hdigits.2 hstops
  have hdrop (place : Nat) := dropWhile_of_stopsAt place hdigits.2 hstops
  have hd := ne_of_isDigit (hdigits.2 d (by simp))
  simp only [List.cons_append] at hmark hsign hread hdrop
  -- the digits start behind the mark, or behind the sign if there is one
  rcases hsign with rfl | rfl | rfl
  · obtain ⟨later, hlater⟩ := hdrop (position + mark.utf8Size)
    exact ⟨⟨d :: (digits ++ rest), position + mark.utf8Size⟩, later, by
      simp [NumeralExponent.spelling, readExponent, hmark, Cursor.next, hd, hread, hlater]⟩
  · obtain ⟨later, hlater⟩ := hdrop (position + mark.utf8Size + '+'.utf8Size)
    exact ⟨⟨d :: (digits ++ rest), position + mark.utf8Size + '+'.utf8Size⟩, later, by
      simp [NumeralExponent.spelling, readExponent, hmark, Cursor.next, hread, hlater]⟩
  · obtain ⟨later, hlater⟩ := hdrop (position + mark.utf8Size + '-'.utf8Size)
    exact ⟨⟨d :: (digits ++ rest), position + mark.utf8Size + '-'.utf8Size⟩, later, by
      simp [NumeralExponent.spelling, readExponent, hmark, Cursor.next, hread, hlater]⟩

/-- The exponent of a numeral is read back from its spelling. -/
theorem readExponent_exponentSpelling {numeral : Numeral} (h : numeral.Sound) (hrest : Ends rest)
    (position : Nat) : ∃ exponent later,
      readExponent ⟨numeral.exponentSpelling ++ rest, position⟩ = .ok (exponent, ⟨rest, later⟩) ∧
        exponent.map Exponent.value = numeral.exponent.map NumeralExponent.value := by
  cases hexponent : numeral.exponent with
  | none =>
    refine ⟨none, position, ?_, rfl⟩
    simp only [Numeral.exponentSpelling, hexponent, List.nil_append]
    cases rest with
    | nil => rfl
    | cons c more => simp [readExponent, hrest.head_ne rfl]
  | some exponent =>
    obtain ⟨inside, later, hread⟩ :=
      readExponent_of_sound (h.exponent exponent hexponent) hrest position
    refine ⟨_, later, by simpa only [Numeral.exponentSpelling, hexponent] using hread, ?_⟩
    by_cases hsign : exponent.sign = some '-' <;>
      simp [exponentOf, NumeralExponent.value, hsign]

/-- Behind the digits of a numeral there is no digit. -/
theorem Numeral.stopsAt_exponentSpelling {numeral : Numeral} (h : numeral.Sound)
    (hrest : Ends rest) {c : Char} {more : Text}
    (htail : numeral.exponentSpelling ++ rest = c :: more) :
    c.isDigit = false ∧ c ≠ '.' := by
  cases hexponent : numeral.exponent with
  | none =>
    simp only [Numeral.exponentSpelling, hexponent, List.nil_append] at htail
    exact ⟨(hrest.head_ne htail).1, (hrest.head_ne htail).2.1⟩
  | some exponent =>
    have hc : exponent.mark = c := by
      simpa [Numeral.exponentSpelling, hexponent, NumeralExponent.spelling] using
        congrArg List.head? htail
    rcases (h.exponent exponent hexponent).mark with hmark | hmark <;>
      (rw [← hc, hmark]; decide)

/-- The fraction of a numeral is read back from its spelling. -/
theorem readFraction_fractionSpelling {numeral : Numeral} (h : numeral.Sound) {tail : Text}
    (htail : ∀ c more, tail = c :: more → c.isDigit = false ∧ c ≠ '.') (position : Nat) :
    ∃ later, readFraction ⟨numeral.fractionSpelling ++ tail, position⟩ =
      .ok (numeral.fraction, ⟨tail, later⟩) := by
  cases hfraction : numeral.fraction with
  | none =>
    refine ⟨position, ?_⟩
    simp only [Numeral.fractionSpelling, hfraction, List.nil_append]
    cases tail with
    | nil => rfl
    | cons c more => simp [readFraction, Cursor.after?, (htail c more rfl).2.symm]
  | some digits =>
    have hdigits := h.fraction digits hfraction
    have hstops : StopsAt Char.isDigit tail := fun c more hcons => (htail c more hcons).1
    obtain ⟨later, hlater⟩ := dropWhile_of_stopsAt (position + 1) hdigits.2 hstops
    refine ⟨later, ?_⟩
    have hpoint : (Cursor.mk ('.' :: (digits ++ tail)) position).after? "." =
        some ⟨digits ++ tail, position + 1⟩ := by
      simp [Cursor.after?, Cursor.skip]
      decide
    simp only [Numeral.fractionSpelling, hfraction, List.cons_append, readFraction, hpoint,
      taken_of_stopsAt _ hdigits.2 hstops, hlater]
    cases digits with
    | nil => exact absurd rfl hdigits.1
    | cons d digits => rfl

/-- The whole digits of a numeral are read. -/
theorem readWhole_append {numeral : Numeral} (h : numeral.Sound) {tail : Text}
    (htail : StopsAt Char.isDigit tail) (position : Nat) :
    ∃ later, readWhole ⟨numeral.whole ++ tail, position⟩ =
      .ok (numeral.whole, ⟨tail, later⟩) := by
  obtain ⟨later, hlater⟩ := dropWhile_of_stopsAt position h.whole.2 htail
  refine ⟨later, ?_⟩
  simp only [readWhole, taken_of_stopsAt _ h.whole.2 htail, hlater]
  split
  · next hnil => exact absurd hnil h.whole.1
  · next hzero =>
    -- a zero with further digits is not spelled
    have := h.zero (by simp [hzero])
    simp [hzero] at this
  · rfl

/-- A numeral is read into its parts. -/
theorem readParts_spelling {numeral : Numeral} (h : numeral.Sound) (hrest : Ends rest)
    (position : Nat) : ∃ exponent later,
      readParts ⟨numeral.spelling ++ rest, position⟩ =
          .ok (⟨numeral.negative, numeral.whole, numeral.fraction, exponent⟩, ⟨rest, later⟩) ∧
        exponent.map Exponent.value = numeral.exponent.map NumeralExponent.value := by
  have hexponent {c : Char} {more : Text} (heq : numeral.exponentSpelling ++ rest = c :: more) :=
    Numeral.stopsAt_exponentSpelling h hrest heq
  have hfraction : StopsAt Char.isDigit
      (numeral.fractionSpelling ++ (numeral.exponentSpelling ++ rest)) := by
    intro c more heq
    cases hsome : numeral.fraction with
    | none => exact (hexponent (by simpa [Numeral.fractionSpelling, hsome] using heq)).1
    | some digits =>
      obtain rfl : '.' = c := by
        simpa [Numeral.fractionSpelling, hsome] using congrArg List.head? heq
      decide
  obtain ⟨d, digits, hwhole⟩ := List.exists_cons_of_ne_nil h.whole.1
  have hd : d ≠ '-' := (ne_of_isDigit (h.whole.2 d (by simp [hwhole]))).2.1
  let behind := if numeral.negative then position + 1 else position
  obtain ⟨afterWhole, hreadWhole⟩ := readWhole_append h hfraction behind
  obtain ⟨afterFraction, hreadFraction⟩ :=
    readFraction_fractionSpelling h (fun c more => hexponent) afterWhole
  obtain ⟨exponent, later, hreadExponent, hvalue⟩ :=
    readExponent_exponentSpelling h hrest afterFraction
  refine ⟨exponent, later, ?_, hvalue⟩
  have hhead : ((numeral.spelling ++ rest).head? = some '-') = (numeral.negative = true) := by
    cases hnegative : numeral.negative <;> simp [Numeral.spelling, hnegative, hwhole, hd]
  have hbehind : (if numeral.negative then
      (Cursor.mk (numeral.spelling ++ rest) position).next
      else ⟨numeral.spelling ++ rest, position⟩) =
        ⟨numeral.whole ++ (numeral.fractionSpelling ++ (numeral.exponentSpelling ++ rest)),
          behind⟩ := by
    cases hnegative : numeral.negative <;>
      simp [Numeral.spelling, hnegative, Cursor.next, behind, show '-'.utf8Size = 1 from rfl]
  simp only [readParts, hhead, Bool.decide_eq_true, hbehind, hreadWhole, hreadFraction,
    hreadExponent, bind, Except.bind]

/-- A number becomes an integer or a decimal, or it is refused and can be passed over. -/
theorem NumberParts.value_cases (parts : NumberParts) (span : Span) :
    (∃ n, parts.value span = .integer n span) ∨ (∃ shown, parts.value span = .decimal shown span) ∨
      ∃ fault, parts.value span = .refused fault none span := by
  simp only [NumberParts.value]
  split
  · exact .inl ⟨_, rfl⟩
  split
  · exact .inl ⟨_, rfl⟩
  split
  · exact .inr (.inr ⟨_, rfl⟩)
  · exact .inr (.inl ⟨_, rfl⟩)

/-- Whether a number is refused does not depend on where it stands or where its exponent
gets too great. -/
theorem NumberParts.refused_of_refused {negative : Bool} {whole : Text} {fraction : Option Text}
    {exponent exponent' : Option Exponent}
    (hexponent : exponent.map Exponent.value = exponent'.map Exponent.value) {span : Span}
    {fault : Fault} {skipped : Option Fault} {place : Span}
    (h : NumberParts.value ⟨negative, whole, fraction, exponent⟩ span =
      .refused fault skipped place) (span' : Span) :
    ∃ fault, NumberParts.value ⟨negative, whole, fraction, exponent'⟩ span' =
      .refused fault none span' := by
  have hnone : exponent.isNone = exponent'.isNone := by simpa using congrArg Option.isNone hexponent
  simp only [NumberParts.value, NumberParts.double?, hnone, hexponent] at h ⊢
  split at h
  · cases h
  next hpositive =>
    split at h
    · cases h
    next hnegative =>
      split at h
      · exact ⟨_, by rw [if_neg hpositive, if_neg hnegative]⟩
      · cases h

/-- What a number is read as tells it, also if its exponent gets too great somewhere. -/
theorem tells_value {lenient : Bool} {numeral : Numeral}
    (hrange : lenient = true ∨ numeral.InRange) {exponent : Option Exponent}
    (h : exponent.map Exponent.value = numeral.exponent.map NumeralExponent.value) (span : Span) :
    Tells lenient (.number numeral.value)
      (NumberParts.value ⟨numeral.negative, numeral.whole, numeral.fraction, exponent⟩ span) := by
  rw [Tells]
  rcases NumberParts.value_cases ⟨numeral.negative, numeral.whole, numeral.fraction, exponent⟩ span
    with hn | hshown | ⟨_, hfault⟩
  · exact .inl (hn.imp fun _ h => ⟨_, h⟩)
  · exact .inr (.inl (hshown.imp fun _ h => ⟨_, h⟩))
  · refine .inr (.inr ⟨hrange.resolve_right ?_, _, _, hfault⟩)
    -- what is in range would have got a value in the same way
    have hexponent : exponent.map Exponent.value = numeral.parts.exponent.map Exponent.value := by
      rw [h, Numeral.parts, Option.map_map]
      rfl
    obtain ⟨fault, hrefused⟩ :=
      NumberParts.refused_of_refused hexponent hfault ⟨0, 0⟩
    rintro (⟨n, span, hvalue⟩ | ⟨shown, span, hvalue⟩) <;>
      exact absurd (hvalue.symm.trans hrefused) nofun

/-- A number is read back from its spelling. -/
theorem readNumber_spelling {lenient : Bool} {numeral : Numeral} (h : numeral.Sound)
    (hrange : lenient = true ∨ numeral.InRange) (hrest : Ends rest) (position : Nat) :
    ∃ value later, readNumber ⟨numeral.spelling ++ rest, position⟩ =
      (value, some ⟨rest, later⟩) ∧ Tells lenient (.number numeral.value) value := by
  obtain ⟨exponent, later, hread, hvalue⟩ := readParts_spelling h hrest position
  exact ⟨_, later, by rw [readNumber, hread], tells_value hrange hvalue _⟩

end Numbers

end InterfaceSchema.Json
