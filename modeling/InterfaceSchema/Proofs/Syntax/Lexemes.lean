import InterfaceSchema.Proofs.Syntax.Scanning
import InterfaceSchema.Text.Quoted

/-!
# Tokens before other text

A token that is read as a whole is read in the same way before other text, as
long as that text does not go on with it. A word goes on with word characters
and escapes, a number also with dots and signs, and a string with nothing.
-/

namespace InterfaceSchema

/-- What a scanner finds, with more text behind it. -/
def Text.before (rest : Text) (found : Option (Text × Text)) : Option (Text × Text) :=
  found.map fun parts => (parts.1, parts.2 ++ rest)

/-- The text does not go on with a word. -/
def Text.LeavesWord (rest : Text) : Prop :=
  ∀ c, rest.head? = some c → Scan.isWordPart c = false ∧ c ≠ '\\'

/-- The text does not go on with a number. -/
def Text.LeavesNumber (rest : Text) : Prop :=
  ∀ c, rest.head? = some c → Scan.isWordPart c = false ∧ c ∉ ".+-".toList

open Text

namespace Digits

variable {base : Nat} {rest : Text}

/-- Digits are word characters. -/
theorem isWordPart_of_isDigitOf {c : Char} (h : isDigitOf base c = true) :
    Scan.isWordPart c = true := by
  have hbounds : (48 ≤ c.toNat ∧ c.toNat ≤ 57) ∨ (97 ≤ c.toNat ∧ c.toNat ≤ 102) ∨
      (65 ≤ c.toNat ∧ c.toNat ≤ 70) := by
    simp only [isDigitOf, decide_eq_true_eq, Char.le_def, UInt32.le_iff_toNat_le] at h
    change (if 48 ≤ c.toNat ∧ c.toNat ≤ 57 then _ else if 97 ≤ c.toNat ∧ c.toNat ≤ 102 then _
      else if 65 ≤ c.toNat ∧ c.toNat ≤ 70 then _ else base) < base at h
    split at h
    · omega
    split at h
    · omega
    split at h
    · omega
    · exact absurd h (Nat.lt_irrefl base)
  have hall : ∀ n < 128, ((48 ≤ n ∧ n ≤ 57) ∨ (97 ≤ n ∧ n ≤ 102) ∨ (65 ≤ n ∧ n ≤ 70)) →
      Scan.isWordPart (Char.ofNat n) = true := by decide +kernel
  have hpart := hall c.toNat (by omega) hbounds
  rwa [Char.ofNat_toNat] at hpart

/-- Decimal digits are digits. -/
theorem isDigit_of_isDigitOf {c : Char} (h : isDigitOf 10 c = true) : c.isDigit = true := by
  simp only [isDigitOf, decide_eq_true_eq] at h
  split at h
  · next hc => simpa [Char.isDigit, Char.le_def] using hc
  split at h
  · omega
  split at h <;> omega

/-- No digit stands where a number is left. -/
theorem isDigitOf_eq_false {c : Char} {more : Text} (h : LeavesNumber (c :: more)) :
    isDigitOf base c = false := by
  rw [Bool.eq_false_iff]
  intro hdigit
  have hpart := isWordPart_of_isDigitOf hdigit
  rw [(h c rfl).1] at hpart
  cases hpart

/-- A character that goes on with a number does not stand where one is left. -/
theorem ne_of_leavesNumber {c d : Char} {more : Text} (h : LeavesNumber (c :: more))
    (hd : Scan.isWordPart d = true ∨ d ∈ ".+-".toList) : c ≠ d := by
  rintro rfl
  obtain ⟨hpart, hsign⟩ := h c rfl
  rcases hd with hd | hd
  · rw [hpart] at hd
    cases hd
  · exact hsign hd

/-- No dot stands where a number is left. -/
theorem head?_append_ne (hrest : LeavesNumber rest) {text : Text} (h : text.head? ≠ some '.') :
    (text ++ rest).head? ≠ some '.' := by
  cases text with
  | nil => exact fun hhead => (hrest '.' hhead).2 (by decide)
  | cons c more => exact h

/-- More digits end where a number is left. -/
theorem moreDigits_before (hrest : LeavesNumber rest) (text : Text) :
    moreDigits base (text ++ rest) =
      ((moreDigits base text).1, (moreDigits base text).2 ++ rest) := by
  fun_induction moreDigits base text with
  | case1 =>
    cases rest with
    | nil => rfl
    | cons c more =>
      have hline : c ≠ '_' := ne_of_leavesNumber hrest (.inl (by decide))
      have hdigit : isDigitOf base c = false := isDigitOf_eq_false hrest
      rw [List.nil_append, moreDigits.eq_3 _ _ _ (fun _ _ h _ => hline h), hdigit]
      rfl
  | case2 c text hdigit digits left hmore ih =>
    rw [hmore] at ih
    rw [List.cons_append, List.cons_append, moreDigits, if_pos hdigit, ih]
  | case3 c text hdigit =>
    rw [List.cons_append, List.cons_append, moreDigits, if_neg hdigit]
  | case4 c text hne hdigit digits left hmore ih =>
    have hline : c ≠ '_' := by
      rintro rfl
      simp [isDigitOf] at hdigit
    rw [hmore] at ih
    rw [List.cons_append, moreDigits.eq_3 _ _ _ (fun _ _ h _ => hline h), if_pos hdigit, ih]
  | case5 c text hne hdigit =>
    have hother (more : Text) (hmore : ∀ d left, more = d :: left → c = '_' → False) :
        moreDigits base (c :: more) = ([], c :: more) := by
      rw [moreDigits.eq_3 _ _ _ fun d left h hmore' => hmore d left hmore' h, if_neg hdigit]
    cases text with
    | cons d more => exact hother (d :: (more ++ rest)) fun _ _ _ h => hne d more h rfl
    | nil =>
      by_cases hline : c = '_'
      · cases rest with
        | nil => exact hother [] fun _ _ h => nomatch h
        | cons d more =>
          have hnext : isDigitOf base d = false := isDigitOf_eq_false hrest
          subst hline
          rw [List.singleton_append, moreDigits, hnext]
          rfl
      · exact hother rest fun _ _ _ h => hline h

/-- Digits end where a number is left. -/
theorem digits?_before (hrest : LeavesNumber rest) (text : Text) :
    digits? base (text ++ rest) = before rest (digits? base text) := by
  cases text with
  | nil =>
    cases rest with
    | nil => rfl
    | cons c more =>
      have hdigit : isDigitOf base c = false := isDigitOf_eq_false hrest
      rw [List.nil_append, digits?.eq_2, hdigit]
      rfl
  | cons c more =>
    rw [List.cons_append, digits?, digits?, moreDigits_before hrest]
    split <;> rfl

/-- A whole part ends where a number is left. -/
theorem wholePart?_before (hrest : LeavesNumber rest) (text : Text) :
    wholePart? (text ++ rest) = before rest (wholePart? text) := by
  have hother (given : Text) (h : ∀ c more, given = '0' :: c :: more → False) :
      wholePart? given = digits? 10 given := wholePart?.eq_2 _ h
  cases text with
  | nil =>
    rw [hother [] (by simp), ← digits?_before hrest]
    refine hother rest ?_
    rintro c more rfl
    exact ne_of_leavesNumber hrest (.inl (by decide)) rfl
  | cons c more =>
    by_cases hzero : c = '0'
    · subst hzero
      cases more with
      | nil =>
        cases rest with
        | nil => rfl
        | cons d left =>
          have hdigit : isDigitOf 10 d = false := isDigitOf_eq_false hrest
          rw [List.singleton_append, wholePart?.eq_1, hdigit, if_neg fun h => nomatch h.2]
          rfl
      | cons d left =>
        rw [List.cons_append, List.cons_append, wholePart?, wholePart?, moreDigits_before hrest]
        split <;> rfl
    · have hne (given : Text) : ∀ d left, c :: given = '0' :: d :: left → False :=
        fun d left h => hzero (List.cons.inj h).1
      rw [hother _ (hne more), List.cons_append, hother _ (hne (more ++ rest))]
      exact digits?_before hrest (c :: more)

/-- An exponent ends where a number is left. -/
theorem exponent?_before (hrest : LeavesNumber rest) (text : Text) :
    exponent? (text ++ rest) = before rest (exponent? text) := by
  cases text with
  | nil =>
    cases rest with
    | nil => rfl
    | cons c more =>
      have hsmall : c ≠ 'e' := ne_of_leavesNumber hrest (.inl (by decide))
      have hlarge : c ≠ 'E' := ne_of_leavesNumber hrest (.inl (by decide))
      rw [List.nil_append, exponent?.eq_def]
      exact if_neg (not_or.2 ⟨hsmall, hlarge⟩)
  | cons e more =>
    rw [List.cons_append, exponent?.eq_def, exponent?.eq_def]
    dsimp only
    split
    · cases more with
      | nil =>
        cases rest with
        | nil => rfl
        | cons c left =>
          have hplus : c ≠ '+' := ne_of_leavesNumber hrest (.inr (by decide))
          have hminus : c ≠ '-' := ne_of_leavesNumber hrest (.inr (by decide))
          have hdigits : digits? 10 (c :: left) = none := digits?_before hrest []
          rw [List.nil_append]
          dsimp only
          rw [if_neg (not_or.2 ⟨hplus, hminus⟩), hdigits]
          rfl
      | cons sign left =>
        dsimp only [List.cons_append]
        rw [digits?_before hrest, ← List.cons_append, digits?_before hrest]
        split
        · cases digits? 10 left <;> rfl
        · cases digits? 10 (sign :: left) <;> rfl
    · rfl

/-- An exponent that may be missing ends where a number is left. -/
theorem optionalExponent_before (hrest : LeavesNumber rest) (text : Text) :
    optionalExponent (text ++ rest) =
      ((optionalExponent text).1, (optionalExponent text).2 ++ rest) := by
  rw [optionalExponent, optionalExponent, exponent?_before hrest]
  cases exponent? text <;> rfl

/-- A suffix that may be missing ends where a number is left. -/
theorem optionalSuffix_before (hrest : LeavesNumber rest) (text : Text) :
    optionalSuffix (text ++ rest) =
      ((optionalSuffix text).1, (optionalSuffix text).2 ++ rest) := by
  have hother (c : Char) (more : Text) (h : c ≠ 'n') :
      optionalSuffix (c :: more) = ([], c :: more) :=
    optionalSuffix.eq_2 _ fun _ heq => h (List.cons.inj heq).1
  cases text with
  | nil =>
    cases rest with
    | nil => rfl
    | cons c more => exact hother c more (ne_of_leavesNumber hrest (.inl (by decide)))
  | cons c more =>
    by_cases hsuffix : c = 'n'
    · subst hsuffix
      rfl
    · rw [List.cons_append, hother _ _ hsuffix, hother _ _ hsuffix]
      rfl

/-- What makes a number with a fraction or an exponent of its whole part. -/
def behindWhole? (whole : Text) : Text → Option (Text × Text)
  | '.' :: more =>
    let (places, left) := (digits? 10 more).getD ([], more)
    let (power, left) := optionalExponent left
    some (whole ++ '.' :: (places ++ power), left)
  | text => (exponent? text).map fun parts => (whole ++ parts.1, parts.2)

/-- Fractions and exponents stand behind a whole part. -/
theorem fractional?_eq (text : Text) : fractional? text =
    (wholePart? text).bind fun parts => behindWhole? parts.1 parts.2 := by
  rw [fractional?]
  cases wholePart? text with
  | none => rfl
  | some parts =>
    obtain ⟨whole, left⟩ := parts
    dsimp only [Option.bind_eq_bind, Option.bind_some]
    split
    · rfl
    · next hne =>
      rw [behindWhole?.eq_2 _ _ hne]
      cases exponent? left <;> rfl

/-- Fractions and exponents end where a number is left. -/
theorem behindWhole?_before (hrest : LeavesNumber rest) (whole text : Text) :
    behindWhole? whole (text ++ rest) = before rest (behindWhole? whole text) := by
  have hother (given : Text) (h : given.head? ≠ some '.') : behindWhole? whole given =
      (exponent? given).map fun parts => (whole ++ parts.1, parts.2) :=
    behindWhole?.eq_2 _ _ fun _ heq => h (congrArg List.head? heq)
  by_cases hdot : text.head? = some '.'
  · obtain ⟨more, rfl⟩ := List.head?_eq_some_iff.1 hdot
    rw [List.cons_append, behindWhole?, behindWhole?, digits?_before hrest]
    cases digits? 10 more <;>
      simp [before, optionalExponent_before hrest]
  · rw [hother _ (head?_append_ne hrest hdot), hother _ hdot, exponent?_before hrest]
    cases exponent? text <;> rfl

/-- A number with a fraction or exponent ends where a number is left. -/
theorem fractional?_before (hrest : LeavesNumber rest) (text : Text) :
    fractional? (text ++ rest) = before rest (fractional? text) := by
  rw [fractional?_eq, fractional?_eq, wholePart?_before hrest]
  cases wholePart? text with
  | none => rfl
  | some parts => exact behindWhole?_before hrest parts.1 parts.2

/-- A fraction ends where a number is left. -/
theorem bareFraction?_before (hrest : LeavesNumber rest) (text : Text) :
    bareFraction? (text ++ rest) = before rest (bareFraction? text) := by
  have hother (given : Text) (h : given.head? ≠ some '.') : bareFraction? given = none :=
    bareFraction?.eq_2 _ fun _ heq => h (congrArg List.head? heq)
  by_cases hdot : text.head? = some '.'
  · obtain ⟨more, rfl⟩ := List.head?_eq_some_iff.1 hdot
    rw [List.cons_append, bareFraction?, bareFraction?, digits?_before hrest]
    cases digits? 10 more <;> simp [before, optionalExponent_before hrest]
  · rw [hother _ (head?_append_ne hrest hdot), hother _ hdot]
    rfl

/-- A number in a base that it names ends where a number is left. -/
theorem based?_before (hrest : LeavesNumber rest) (text : Text) :
    based? (text ++ rest) = before rest (based? text) := by
  have hother (given : Text) (h : ∀ c more, given = '0' :: c :: more → False) :
      based? given = none := based?.eq_2 _ h
  have hzero (given : Text) (h : given.head? ≠ some '0') : based? given = none := by
    refine hother given ?_
    rintro c more rfl
    exact h rfl
  cases text with
  | nil =>
    rw [hzero [] (by simp)]
    exact hzero rest fun hhead => by
      obtain ⟨more, rfl⟩ := List.head?_eq_some_iff.1 hhead
      exact ne_of_leavesNumber hrest (.inl (by decide)) rfl
  | cons first more =>
    by_cases hfirst : first = '0'
    · subst hfirst
      cases more with
      | nil =>
        rw [hother ['0'] (by simp)]
        cases rest with
        | nil => rfl
        | cons c left =>
          have hbase : baseOf? c = none := by
            have hne (d : Char) (hd : Scan.isWordPart d = true) : c ≠ d :=
              ne_of_leavesNumber hrest (.inl hd)
            rw [baseOf?, if_neg (not_or.2 ⟨hne 'x' (by decide), hne 'X' (by decide)⟩),
              if_neg (not_or.2 ⟨hne 'o' (by decide), hne 'O' (by decide)⟩),
              if_neg (not_or.2 ⟨hne 'b' (by decide), hne 'B' (by decide)⟩)]
          rw [List.singleton_append, based?, hbase]
          rfl
      | cons c left =>
        rw [List.cons_append, List.cons_append, based?, based?]
        cases baseOf? c with
        | none => rfl
        | some base =>
          dsimp only [Option.bind_eq_bind, Option.bind_some]
          rw [digits?_before hrest]
          cases digits? base left <;> simp [before, optionalSuffix_before hrest]
    · rw [hzero (first :: more) (by simpa using hfirst)]
      exact hzero _ (by simpa using hfirst)

/-- A whole number ends where a number is left. -/
theorem whole?_before (hrest : LeavesNumber rest) (text : Text) :
    whole? (text ++ rest) = before rest (whole? text) := by
  rw [whole?, whole?, digits?_before hrest]
  cases digits? 10 text with
  | none => rfl
  | some parts => simp [before, optionalSuffix_before hrest]

/-- A numeral ends where a number is left. -/
theorem read?_before (hrest : LeavesNumber rest) (text : Text) :
    read? (text ++ rest) = before rest (read? text) := by
  rw [read?, read?, bareFraction?_before hrest, based?_before hrest, fractional?_before hrest,
    whole?_before hrest]
  cases bareFraction? text <;> cases based? text <;> cases fractional? text <;> rfl

end Digits

namespace Scan

variable {p : Char → Bool} {text found left rest : Text}

/-- A cut that is not at the end stays where it is. -/
theorem cut_before (h : (cut p text).2 ≠ []) (rest : Text) :
    cut p (text ++ rest) = ((cut p text).1, (cut p text).2 ++ rest) := by
  have hdrop : text.dropWhile p ≠ [] := h
  have hlength : (text.takeWhile p).length ≠ text.length := by
    intro hlength
    have hall : text.takeWhile p ++ text.dropWhile p = text := List.takeWhile_append_dropWhile
    have hsum := congrArg List.length hall
    rw [List.length_append] at hsum
    exact hdrop (List.eq_nil_of_length_eq_zero (by omega))
  rw [cut, cut, List.takeWhile_append, if_neg hlength, List.dropWhile_append,
    if_neg (by simpa using hdrop)]

/-- An escaped character is read before any text. -/
theorem codeEscape?_before (h : codeEscape? text = some (found, left)) (rest : Text) :
    codeEscape? (text ++ rest) = some (found, left ++ rest) := by
  unfold codeEscape? at h
  split at h
  · next more =>
    split at h
    · cases h
    · next digits behind hne hdigits =>
      have hbehind : (cut isHexDigit more).2 ≠ [] := by
        rw [hdigits]
        exact List.cons_ne_nil _ _
      have hcut := cut_before hbehind rest
      rw [hdigits] at hcut
      cases h
      rw [List.cons_append, List.cons_append, List.cons_append, codeEscape?, hcut]
      cases digits with
      | nil => exact absurd rfl hne
      | cons digit digits => rfl
    · cases h
  · next a b c d more hbrace =>
    simp only [List.cons_append]
    rw [codeEscape?.eq_2 _ _ _ _ _ hbrace]
    split at h
    · next hdigits =>
      cases h
      rw [if_pos hdigits]
    · cases h
  · cases h

/-- A letter is read before any text. -/
theorem letter?_before (h : letter? p text = some (found, left)) (rest : Text) :
    letter? p (text ++ rest) = some (found, left ++ rest) := by
  cases text with
  | nil => cases h
  | cons c more =>
    rw [letter?] at h
    rw [List.cons_append, letter?]
    split at h
    · next hc =>
      cases h
      rw [if_pos hc]
    · next hc =>
      rw [if_neg hc]
      exact codeEscape?_before h rest

/-- A letter takes up room. -/
theorem length_lt_of_letter? (h : letter? p text = some (found, left)) :
    left.length < text.length := by
  have htext := congrArg List.length (eq_of_letter? h)
  have hfound : found ≠ [] := by
    rintro rfl
    unfold letter? at h
    split at h
    · cases h
    split at h
    · cases h
    unfold codeEscape? at h
    split at h
    · split at h <;> cases h
    · split at h <;> cases h
    · cases h
  have hlength := List.length_pos_iff.2 hfound
  rw [List.length_append] at htext
  omega

/-- No letter stands where a word is left. -/
theorem letter?_leavesWord (hrest : LeavesWord rest) : letter? isWordPart rest = none := by
  cases rest with
  | nil => rfl
  | cons c more =>
    obtain ⟨hpart, hescape⟩ := hrest c rfl
    rw [letter?, hpart]
    exact codeEscape?.eq_3 _ (fun _ h => hescape (List.cons.inj h).1)
      fun _ _ _ _ _ h => hescape (List.cons.inj h).1

/-- The rest of a word ends where a word is left. -/
theorem wordRest_before (hrest : LeavesWord rest) {fuel : Nat} (h : wordRest fuel text = (text, []))
    {more : Nat} (hmore : text.length ≤ more) : wordRest more (text ++ rest) = (text, rest) := by
  have hnil (fuel : Nat) : wordRest fuel rest = ([], rest) := by
    cases fuel with
    | zero => rfl
    | succ fuel => rw [wordRest, letter?_leavesWord hrest]
  induction fuel generalizing text more with
  | zero =>
    cases h
    exact hnil more
  | succ fuel ih =>
    rw [wordRest] at h
    split at h
    · next letter behind hletter =>
      obtain ⟨hfound, hleft⟩ := Prod.mk.inj h
      have htext := eq_of_letter? hletter
      have hbehind : (wordRest fuel behind).1 = behind :=
        List.append_cancel_left (hfound.trans htext)
      have hlength := length_lt_of_letter? hletter
      cases more with
      | zero => omega
      | succ more =>
        rw [wordRest, letter?_before hletter]
        dsimp only
        rw [ih (Prod.ext hbehind hleft) (by omega), htext]
    · cases h
      exact hnil more

/-- A word ends where a word is left. -/
theorem word?_before (h : word? text = some (text, [])) (hrest : LeavesWord rest) :
    word? (text ++ rest) = some (text, rest) := by
  obtain ⟨⟨letter, behind⟩, hletter, heq⟩ := Option.map_eq_some_iff.1 h
  obtain ⟨hfound, hleft⟩ := Prod.mk.inj heq
  have htext := eq_of_letter? hletter
  have hbehind : (wordRest behind.length behind).1 = behind :=
    List.append_cancel_left (hfound.trans htext)
  have hword : wordRest (behind ++ rest).length (behind ++ rest) = (behind, rest) :=
    wordRest_before hrest (Prod.ext hbehind hleft) (by rw [List.length_append]; omega)
  rw [word?, letter?_before hletter, Option.map_some]
  dsimp only
  rw [hword, htext]

/-- An escape is one before any text. -/
theorem isEscape_before (h : isEscape text = true) (rest : Text) :
    isEscape (text ++ rest) = true := by
  unfold isEscape at h
  split at h
  · cases h
  · next more =>
    rw [decide_eq_true_eq] at h
    rw [List.cons_append, isEscape, decide_eq_true_eq, List.takeWhile_append]
    split
    · rw [List.length_append]
      have hle := (List.takeWhile_sublist isHexDigit (l := more)).length_le
      omega
    · exact h
  · next more =>
    obtain ⟨⟨found, left⟩, hfound⟩ := Option.isSome_iff_exists.1 h
    have hbefore := codeEscape?_before hfound rest
    rw [List.cons_append, isEscape]
    exact Option.isSome_iff_exists.2 ⟨_, hbefore⟩
  · next hne hx hu =>
    cases text with
    | nil => exact absurd rfl hne
    | cons c more =>
      have hc (d : Char) (hd : ∀ more', c :: more = d :: more' → False) (after : Text) :
          c :: (more ++ rest) = d :: after → False :=
        fun heq => hd more (by rw [(List.cons.inj heq).1])
      exact isEscape.eq_4 _ (List.cons_ne_nil _ _) (hc 'x' hx) (hc 'u' hu)

/-- A character of a string that is no backslash. -/
theorem stringBody_cons {quote c : Char} (hc : c ≠ '\\') (more : Text) :
    stringBody quote (c :: more) =
      if c = quote then some ([c], more)
      else if c = '\n' ∨ c = '\r' ∨ c = '\\' then none
      else (stringBody quote more).map fun (body, left) => (c :: body, left) :=
  stringBody.eq_4 _ _ _ (fun _ h _ => hc h) fun _ _ h _ => hc h

/-- A string is read before any text. -/
theorem stringBody_before {quote : Char} (hescape : quote ≠ '\\')
    (h : stringBody quote text = some (found, left)) (rest : Text) :
    stringBody quote (text ++ rest) = some (found, left ++ rest) := by
  fun_induction stringBody quote text generalizing found with
  | case1 => cases h
  | case2 more ih =>
    obtain ⟨⟨body, behind⟩, hbody, heq⟩ := Option.map_eq_some_iff.1 h
    cases heq
    simp only [List.cons_append]
    rw [stringBody, ih hbody]
    rfl
  | case3 c more hreturn hescape ih =>
    obtain ⟨⟨body, behind⟩, hbody, heq⟩ := Option.map_eq_some_iff.1 h
    cases heq
    have hne (after : Text) : c = '\r' → more ++ rest = '\n' :: after → False := by
      intro hc hmore
      cases more with
      | nil => cases hbody
      | cons d behind => exact hreturn behind hc (by rw [(List.cons.inj hmore).1])
    have hbefore : isEscape (c :: (more ++ rest)) = true := isEscape_before hescape rest
    simp only [List.cons_append]
    rw [stringBody.eq_3 _ _ _ hne, if_pos hbefore, ih hbody]
    rfl
  | case7 c more _ _ hquote hline ih =>
    obtain ⟨⟨body, behind⟩, hbody, heq⟩ := Option.map_eq_some_iff.1 h
    cases heq
    have hne : c ≠ '\\' := fun hc => hline (.inr (.inr hc))
    rw [List.cons_append, stringBody_cons hne, if_neg hquote, if_neg hline, ih hbody]
    rfl
  | case4 | case6 => cases h
  | case5 more =>
    cases h
    rw [List.cons_append, stringBody_cons hescape, if_pos rfl]

/-- A quoted text without line ends is a string. -/
theorem stringBody_escape {value : Text} (hline : '\n' ∉ value) (hreturn : '\r' ∉ value) :
    stringBody '\'' (escape value ++ ['\'']) = some (escape value ++ ['\''], []) := by
  induction value with
  | nil => rfl
  | cons c more ih =>
    obtain ⟨hline, hlines⟩ := not_or.1 (mt List.mem_cons.2 hline)
    obtain ⟨hreturn, hreturns⟩ := not_or.1 (mt List.mem_cons.2 hreturn)
    have hmore := ih hlines hreturns
    rw [escape]
    split
    · next hc =>
      have hescape (after : Text) : isEscape (c :: after) = true := by
        rcases hc with rfl | rfl <;> rfl
      have hfirst (after : Text) : c = '\r' → escape more ++ ['\''] = '\n' :: after → False :=
        fun heq _ => hreturn heq.symm
      rw [List.cons_append, List.cons_append, stringBody.eq_3 _ _ _ hfirst, if_pos (hescape _),
        hmore]
      rfl
    · next hc =>
      obtain ⟨hbackslash, hquote⟩ := not_or.1 hc
      have hend : ¬(c = '\n' ∨ c = '\r' ∨ c = '\\') :=
        fun h => h.elim (fun h => hline h.symm) fun h => h.elim (fun h => hreturn h.symm) hbackslash
      rw [List.cons_append, stringBody_cons hbackslash, if_neg hquote, if_neg hend, hmore]
      rfl

end Scan

end InterfaceSchema
