import InterfaceSchema.Syntax.Scan

/-!
# Scanners cut texts

Every scanner takes a piece off the front of a text and returns it with what
follows. Nothing gets lost on the way: the piece and what follows it are the
text.
-/

namespace InterfaceSchema

namespace Digits

/-- Digits and what follows them are the text. -/
theorem moreDigits_append (base : Nat) (text : Text) :
    (moreDigits base text).1 ++ (moreDigits base text).2 = text := by
  fun_induction moreDigits base text <;> simp_all

/-- Digits and what follows them are the text. -/
theorem eq_of_digits? {base : Nat} {text found left : Text}
    (h : digits? base text = some (found, left)) : text = found ++ left := by
  cases text with
  | nil => simp [digits?] at h
  | cons c rest =>
    rw [digits?] at h
    split at h
    · cases h
      simp [moreDigits_append]
    · cases h

/-- A whole part and what follows it are the text. -/
theorem eq_of_wholePart? {text found left : Text} (h : wholePart? text = some (found, left)) :
    text = found ++ left := by
  unfold wholePart? at h
  split at h
  · split at h
    · cases h
      simp [moreDigits_append]
    · cases h
      rfl
  · exact eq_of_digits? h

/-- An exponent and what follows it are the text. -/
theorem eq_of_exponent? {text found left : Text} (h : exponent? text = some (found, left)) :
    text = found ++ left := by
  unfold exponent? at h
  split at h
  · split at h
    · split at h
      · split at h
        · obtain ⟨⟨digits, rest⟩, hdigits, heq⟩ := Option.map_eq_some_iff.1 h
          cases heq
          simp [eq_of_digits? hdigits]
        · obtain ⟨⟨digits, rest⟩, hdigits, heq⟩ := Option.map_eq_some_iff.1 h
          cases heq
          simp [eq_of_digits? hdigits]
      · cases h
    · cases h
  · cases h

/-- An exponent that may be missing and what follows it are the text. -/
theorem optionalExponent_append (text : Text) :
    (optionalExponent text).1 ++ (optionalExponent text).2 = text := by
  unfold optionalExponent
  cases h : exponent? text with
  | none => rfl
  | some pair => exact (eq_of_exponent? h).symm

/-- A suffix that may be missing and what follows it are the text. -/
theorem optionalSuffix_append (text : Text) :
    (optionalSuffix text).1 ++ (optionalSuffix text).2 = text := by
  unfold optionalSuffix
  split <;> rfl

/-- A number with a fraction or exponent and what follows it are the text. -/
theorem eq_of_fractional? {text found left : Text} (h : fractional? text = some (found, left)) :
    text = found ++ left := by
  simp only [fractional?, Option.bind_eq_bind, Option.bind_eq_some_iff, Prod.exists] at h
  obtain ⟨whole, rest, hwhole, h⟩ := h
  rw [eq_of_wholePart? hwhole]
  split at h
  · next more =>
    have hplaces : more = ((digits? 10 more).getD ([], more)).1 ++
        ((digits? 10 more).getD ([], more)).2 := by
      cases hdigits : digits? 10 more with
      | none => rfl
      | some places => exact eq_of_digits? hdigits
    simp only [Option.some.injEq, Prod.mk.injEq] at h
    obtain ⟨rfl, rfl⟩ := h
    rw [List.append_assoc, List.cons_append, List.append_assoc, optionalExponent_append, ← hplaces]
  · simp only [Option.bind_eq_some_iff, Prod.exists, Option.some.injEq, Prod.mk.injEq] at h
    obtain ⟨power, after, hpower, rfl, rfl⟩ := h
    rw [eq_of_exponent? hpower, List.append_assoc]

/-- A fraction and what follows it are the text. -/
theorem eq_of_bareFraction? {text found left : Text} (h : bareFraction? text = some (found, left)) :
    text = found ++ left := by
  unfold bareFraction? at h
  split at h
  · simp only [Option.bind_eq_bind, Option.bind_eq_some_iff, Prod.exists, Option.some.injEq,
      Prod.mk.injEq] at h
    obtain ⟨places, rest, hplaces, rfl, rfl⟩ := h
    rw [eq_of_digits? hplaces, List.cons_append, List.append_assoc, optionalExponent_append]
  · cases h

/-- A number in a base that it names and what follows it are the text. -/
theorem eq_of_based? {text found left : Text} (h : based? text = some (found, left)) :
    text = found ++ left := by
  unfold based? at h
  split at h
  · simp only [Option.bind_eq_bind, Option.bind_eq_some_iff, Prod.exists, Option.some.injEq,
      Prod.mk.injEq] at h
    obtain ⟨base, -, digits, rest, hdigits, rfl, rfl⟩ := h
    rw [eq_of_digits? hdigits, List.cons_append, List.cons_append, List.append_assoc,
      optionalSuffix_append]
  · cases h

/-- A whole number and what follows it are the text. -/
theorem eq_of_whole? {text found left : Text} (h : whole? text = some (found, left)) :
    text = found ++ left := by
  simp only [whole?, Option.bind_eq_bind, Option.bind_eq_some_iff, Prod.exists, Option.some.injEq,
    Prod.mk.injEq] at h
  obtain ⟨digits, rest, hdigits, rfl, rfl⟩ := h
  rw [eq_of_digits? hdigits, List.append_assoc, optionalSuffix_append]

/-- A numeral and what follows it are the text. -/
theorem eq_of_read? {text found left : Text} (h : read? text = some (found, left)) :
    text = found ++ left := by
  rw [read?] at h
  rcases Option.or_eq_some_iff.1 h with h | ⟨-, h⟩
  · exact eq_of_bareFraction? h
  rcases Option.or_eq_some_iff.1 h with h | ⟨-, h⟩
  · exact eq_of_based? h
  rcases Option.or_eq_some_iff.1 h with h | ⟨-, h⟩
  · exact eq_of_fractional? h
  · exact eq_of_whole? h

end Digits

namespace Scan

/-- The two sides of a cut are the text. -/
theorem cut_append (p : Char → Bool) (text : Text) : (cut p text).1 ++ (cut p text).2 = text :=
  List.takeWhile_append_dropWhile

/-- An escaped character and what follows it are the text. -/
theorem eq_of_codeEscape? {text found left : Text} (h : codeEscape? text = some (found, left)) :
    text = found ++ left := by
  unfold codeEscape? at h
  split at h
  · next rest =>
    have hcut := cut_append isHexDigit rest
    split at h
    · cases h
    · next digits left' hdigits =>
      rw [hdigits] at hcut
      cases h
      simp [← hcut]
    · cases h
  · split at h
    · cases h
      rfl
    · cases h
  · cases h

/-- A letter and what follows it are the text. -/
theorem eq_of_letter? {p : Char → Bool} {text found left : Text}
    (h : letter? p text = some (found, left)) : text = found ++ left := by
  unfold letter? at h
  split at h
  · cases h
  · split at h
    · cases h
      rfl
    · exact eq_of_codeEscape? h

/-- The rest of a word and what follows it are the text. -/
theorem wordRest_append (fuel : Nat) (text : Text) :
    (wordRest fuel text).1 ++ (wordRest fuel text).2 = text := by
  induction fuel generalizing text with
  | zero => rfl
  | succ fuel ih =>
    rw [wordRest]
    split
    · next letter rest hletter =>
      rw [eq_of_letter? hletter, List.append_assoc, ih]
    · rfl

/-- A word and what follows it are the text. -/
theorem eq_of_word? {text found left : Text} (h : word? text = some (found, left)) :
    text = found ++ left := by
  obtain ⟨⟨letter, rest⟩, hletter, heq⟩ := Option.map_eq_some_iff.1 h
  cases heq
  simp [eq_of_letter? hletter, wordRest_append]

/-- A string and what follows it are the text. -/
theorem eq_of_stringBody {quote : Char} {text found left : Text}
    (h : stringBody quote text = some (found, left)) : text = found ++ left := by
  fun_induction stringBody quote text generalizing found with
  | case1 => cases h
  | case2 rest ih | case3 c rest _ _ ih | case7 c rest _ _ _ _ ih =>
    obtain ⟨⟨body, more⟩, hbody, heq⟩ := Option.map_eq_some_iff.1 h
    cases heq
    simp [ih hbody]
  | case4 | case6 => cases h
  | case5 => cases h; rfl

/-- The text of a template and what follows it are the text. -/
theorem eq_of_templateText {text found left : Text} (h : templateText text = some (found, left)) :
    text = found ++ left := by
  fun_induction templateText text generalizing found with
  | case1 => cases h
  | case2 | case3 => cases h; rfl
  | case4 c rest _ ih | case6 c rest _ _ _ ih =>
    obtain ⟨⟨body, more⟩, hbody, heq⟩ := Option.map_eq_some_iff.1 h
    cases heq
    simp [ih hbody]
  | case5 => cases h

/-- The body of a regular expression and what follows it are the text. -/
theorem eq_of_regexBody {bracketed : Bool} {text found left : Text}
    (h : regexBody bracketed text = some (found, left)) : text = found ++ left := by
  fun_induction regexBody bracketed text generalizing found with
  | case1 | case2 | case4 => cases h
  | case5 => cases h; rfl
  | case3 | case6 =>
    rename_i ih
    obtain ⟨⟨body, more⟩, hbody, heq⟩ := Option.map_eq_some_iff.1 h
    cases heq
    simp [ih hbody]

/-- A regular expression and what follows it are the text. -/
theorem eq_of_regex? {text found left : Text} (h : regex? text = some (found, left)) :
    text = found ++ left := by
  unfold regex? at h
  split at h
  · next rest =>
    obtain ⟨⟨body, more⟩, hbody, heq⟩ := Option.map_eq_some_iff.1 h
    cases heq
    rw [eq_of_regexBody hbody, List.cons_append, List.append_assoc, List.takeWhile_append_dropWhile]
  · cases h

/-- A block comment and what follows it are the text. -/
theorem eq_of_blockComment {text found left : Text} (h : blockComment text = some (found, left)) :
    text = found ++ left := by
  fun_induction blockComment text generalizing found with
  | case1 => cases h
  | case2 => cases h; rfl
  | case3 c rest _ ih =>
    obtain ⟨⟨body, more⟩, hbody, heq⟩ := Option.map_eq_some_iff.1 h
    cases heq
    simp [ih hbody]

/-- A symbol and what follows it are the text. -/
theorem eq_of_symbol? {text found left : Text} (h : symbol? text = some (found, left)) :
    text = found ++ left := by
  unfold symbol? at h
  split at h
  · next long hlong =>
    cases h
    have hstarts : found.isPrefixOf text = true := by
      simpa only using List.find?_some (p := fun long : Text => long.isPrefixOf text) hlong
    obtain ⟨tail, htail⟩ := List.isPrefixOf_iff_prefix.1 hstarts
    simp [← htail]
  · split at h
    · split at h
      · cases h
        rfl
      · cases h
    · cases h

/-- A token and what follows it are the text. -/
theorem eq_of_lexeme? {first : Bool} {text found left : Text} {kind : TokenKind}
    (h : lexeme? first text = some (kind, found, left)) : text = found ++ left := by
  unfold lexeme? at h
  split at h
  · cases h
  · next c rest =>
    split at h
    · obtain ⟨⟨number, more⟩, hnumber, heq⟩ := Option.map_eq_some_iff.1 h
      cases heq
      exact Digits.eq_of_read? hnumber
    split at h
    · obtain ⟨⟨body, more⟩, hbody, heq⟩ := Option.map_eq_some_iff.1 h
      cases heq
      simp [eq_of_stringBody hbody]
    split at h
    · split at h
      · cases h
        exact List.takeWhile_append_dropWhile.symm
      · obtain ⟨⟨word, more⟩, hword, heq⟩ := Option.map_eq_some_iff.1 h
        cases heq
        simp [eq_of_word? hword]
    split at h
    · next word more hword =>
      cases h
      exact eq_of_word? hword
    · obtain ⟨⟨symbol, more⟩, hsymbol, heq⟩ := Option.map_eq_some_iff.1 h
      cases heq
      exact eq_of_symbol? hsymbol

end Scan

end InterfaceSchema
