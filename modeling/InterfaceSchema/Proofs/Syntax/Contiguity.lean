import InterfaceSchema.Proofs.Syntax.LeavingStatements

/-!
# Tokens right behind each other

What readers leave is never more and never less than the tokens of the source
behind the last token that was taken: nothing but blanks and comments is passed
over. So the tokens that something was read from are known by a position in the
source. A token that cannot be gone on from, such as the quote that opens a
template, is the last one.
-/

namespace InterfaceSchema

namespace Digits

/-- Digits are not empty. -/
theorem ne_nil_of_digits? {base : Nat} {text found left : Text}
    (h : digits? base text = some (found, left)) : found ≠ [] := by
  cases text with
  | nil => cases h
  | cons c rest =>
    rw [digits?] at h
    split at h
    · cases h
      exact List.cons_ne_nil _ _
    · cases h

/-- A whole part is not empty. -/
theorem ne_nil_of_wholePart? {text found left : Text}
    (h : wholePart? text = some (found, left)) : found ≠ [] := by
  unfold wholePart? at h
  split at h
  · split at h <;> cases h <;> exact List.cons_ne_nil _ _
  · exact ne_nil_of_digits? h

/-- A numeral is not empty. -/
theorem ne_nil_of_read? {text found left : Text} (h : read? text = some (found, left)) :
    found ≠ [] := by
  rw [read?] at h
  rcases Option.or_eq_some_iff.1 h with h | ⟨-, h⟩
  · unfold bareFraction? at h
    split at h
    · simp only [Option.bind_eq_bind, Option.bind_eq_some_iff, Prod.exists, Option.some.injEq,
        Prod.mk.injEq] at h
      obtain ⟨places, rest, -, rfl, -⟩ := h
      exact List.cons_ne_nil _ _
    · cases h
  rcases Option.or_eq_some_iff.1 h with h | ⟨-, h⟩
  · unfold based? at h
    split at h
    · simp only [Option.bind_eq_bind, Option.bind_eq_some_iff, Prod.exists, Option.some.injEq,
        Prod.mk.injEq] at h
      obtain ⟨base, -, digits, rest, -, rfl, -⟩ := h
      exact List.cons_ne_nil _ _
    · cases h
  rcases Option.or_eq_some_iff.1 h with h | ⟨-, h⟩
  · simp only [fractional?, Option.bind_eq_bind, Option.bind_eq_some_iff, Prod.exists] at h
    obtain ⟨whole, rest, hwhole, h⟩ := h
    have hne := ne_nil_of_wholePart? hwhole
    split at h
    · cases h
      exact List.append_ne_nil_of_left_ne_nil hne _
    · simp only [Option.bind_eq_some_iff, Prod.exists, Option.some.injEq, Prod.mk.injEq] at h
      obtain ⟨power, after, -, rfl, -⟩ := h
      exact List.append_ne_nil_of_left_ne_nil hne _
  · simp only [whole?, Option.bind_eq_bind, Option.bind_eq_some_iff, Prod.exists, Option.some.injEq,
      Prod.mk.injEq] at h
    obtain ⟨digits, rest, hdigits, rfl, -⟩ := h
    exact List.append_ne_nil_of_left_ne_nil (ne_nil_of_digits? hdigits) _

end Digits

namespace Scan

variable {text found left : Text} {first : Bool} {kind : TokenKind}

/-- A word is not empty, and it starts with what a word starts with or with a
backslash. -/
theorem ne_nil_of_word? (h : word? text = some (found, left)) :
    ∃ c more, found = c :: more ∧ (isWordStart c = true ∨ c = '\\') := by
  obtain ⟨⟨letter, rest⟩, hletter, heq⟩ := Option.map_eq_some_iff.1 h
  cases heq
  unfold letter? at hletter
  split at hletter
  · cases hletter
  · split at hletter
    · next hstart =>
      cases hletter
      exact ⟨_, _, rfl, .inl hstart⟩
    · unfold codeEscape? at hletter
      split at hletter
      · split at hletter
        · cases hletter
        · cases hletter
          exact ⟨_, _, rfl, .inr rfl⟩
        · cases hletter
      · split at hletter
        · cases hletter
          exact ⟨_, _, rfl, .inr rfl⟩
        · cases hletter
      · cases hletter

/-- A symbol is not empty. -/
theorem ne_nil_of_symbol? (h : symbol? text = some (found, left)) : found ≠ [] := by
  unfold symbol? at h
  split at h
  · next long hlong =>
    cases h
    have hall : ∀ symbol ∈ longSymbols, symbol ≠ [] := by decide
    exact hall found (List.mem_of_find?_eq_some hlong)
  · split at h
    · split at h
      · cases h
        exact List.cons_ne_nil _ _
      · cases h
    · cases h

/-- A token is not empty. -/
theorem ne_nil_of_lexeme? (h : lexeme? first text = some (kind, found, left)) : found ≠ [] := by
  unfold lexeme? at h
  split at h
  · cases h
  · next c rest =>
    split at h
    · obtain ⟨⟨number, more⟩, hnumber, heq⟩ := Option.map_eq_some_iff.1 h
      cases heq
      exact Digits.ne_nil_of_read? hnumber
    split at h
    · obtain ⟨⟨body, more⟩, -, heq⟩ := Option.map_eq_some_iff.1 h
      cases heq
      exact List.cons_ne_nil _ _
    split at h
    · next hsign =>
      split at h
      · cases h
        subst hsign
        exact List.cons_ne_nil _ _
      · obtain ⟨⟨word, more⟩, -, heq⟩ := Option.map_eq_some_iff.1 h
        cases heq
        exact List.cons_ne_nil _ _
    split at h
    · next word more hword =>
      cases h
      obtain ⟨c, more, rfl, -⟩ := ne_nil_of_word? hword
      exact List.cons_ne_nil _ _
    · obtain ⟨⟨symbol, more⟩, hsymbol, heq⟩ := Option.map_eq_some_iff.1 h
      cases heq
      exact ne_nil_of_symbol? hsymbol

/-- At a place that is no comment a blank is passed over, a token is cut off, or
nothing more can be cut. -/
theorem tokensFrom_plain {fuel position : Nat} {gap : Gap} {c : Char} {rest : Text}
    (hline : ∀ more, c = '/' → rest = '/' :: more → False)
    (hblock : ∀ more, c = '/' → rest = '*' :: more → False) :
    tokensFrom (fuel + 1) first gap position (c :: rest) =
      if isBlank c then
        tokensFrom fuel first (if c = '\n' then gap.newline else gap) (position + c.utf8Size) rest
      else
        match lexeme? first (c :: rest) with
        | some (kind, found, left) =>
          if found = ['`'] then [⟨kind, found, position, gap⟩]
          else
            ⟨kind, found, position, gap⟩ ::
              tokensFrom fuel false .none (position + Text.byteLength found) left
        | none => [⟨.broken, c :: rest, position, gap⟩] := by
  conv =>
    lhs
    unfold tokensFrom
  split
  · next heq => cases heq
  · next heq => cases heq; exact absurd rfl (hline _ rfl)
  · next heq => cases heq; exact absurd rfl (hblock _ rfl)
  · next heq =>
    cases heq
    rfl

/-- A comment up to the end of its line is put into the gap. -/
theorem tokensFrom_lineComment (fuel position : Nat) (gap : Gap) (rest : Text) :
    tokensFrom (fuel + 1) first gap position ('/' :: '/' :: rest) =
      tokensFrom fuel first
        (gap.add ⟨'/' :: '/' :: (cut (fun c => !endsLine c) rest).1, position⟩)
        (Comment.stop ⟨'/' :: '/' :: (cut (fun c => !endsLine c) rest).1, position⟩)
        (cut (fun c => !endsLine c) rest).2 := rfl

/-- A comment up to its end is put into the gap, and nothing is cut if it has
none. -/
theorem tokensFrom_blockComment (fuel position : Nat) (gap : Gap) (rest : Text) :
    tokensFrom (fuel + 1) first gap position ('/' :: '*' :: rest) =
      match blockComment rest with
      | some (body, left) =>
        tokensFrom fuel first (gap.add ⟨'/' :: '*' :: body, position⟩)
          (Comment.stop ⟨'/' :: '*' :: body, position⟩) left
      | none => [⟨.broken, '/' :: '*' :: rest, position, gap⟩] := rfl

/-- Cutting a text into tokens takes no more fuel than it has characters. -/
theorem tokensFrom_fuel {fuel other position : Nat} {gap : Gap} (h : text.length < fuel)
    (hother : text.length < other) :
    tokensFrom fuel first gap position text = tokensFrom other first gap position text := by
  induction fuel generalizing other first gap position text with
  | zero => exact absurd h (Nat.not_lt_zero _)
  | succ fuel ih =>
    obtain ⟨other, rfl⟩ := Nat.exists_eq_add_one_of_ne_zero (Nat.ne_zero_of_lt hother)
    -- what is left behind a piece is shorter than the text
    have hbehind (found : Text) {first : Bool} {gap : Gap} {position : Nat} {left : Text}
        (heq : text = found ++ left) (hfound : found ≠ []) :
        tokensFrom fuel first gap position left = tokensFrom other first gap position left := by
      have hpos := List.length_pos_iff.2 hfound
      rw [heq, List.length_append] at h hother
      exact ih (by omega) (by omega)
    by_cases hline : ∃ rest, text = '/' :: '/' :: rest
    · obtain ⟨rest, rfl⟩ := hline
      rw [tokensFrom_lineComment, tokensFrom_lineComment]
      refine hbehind ('/' :: '/' :: (cut (fun c => !endsLine c) rest).1) ?_
        (List.cons_ne_nil _ _)
      rw [List.cons_append, List.cons_append, cut_append]
    by_cases hblock : ∃ rest, text = '/' :: '*' :: rest
    · obtain ⟨rest, rfl⟩ := hblock
      rw [tokensFrom_blockComment, tokensFrom_blockComment]
      split
      · next body left hbody =>
        exact hbehind ('/' :: '*' :: body) (by rw [eq_of_blockComment hbody]; rfl)
          (List.cons_ne_nil _ _)
      · rfl
    cases text with
    | nil => rfl
    | cons c rest =>
      have hnoline (more : Text) (hc : c = '/') (hrest : rest = '/' :: more) : False :=
        hline ⟨more, by rw [hc, hrest]⟩
      have hnoblock (more : Text) (hc : c = '/') (hrest : rest = '*' :: more) : False :=
        hblock ⟨more, by rw [hc, hrest]⟩
      rw [tokensFrom_plain hnoline hnoblock, tokensFrom_plain hnoline hnoblock,
        hbehind [c] rfl (List.cons_ne_nil _ _)]
      cases hlexeme : lexeme? first (c :: rest) with
      | none => rfl
      | some found =>
        obtain ⟨kind, found, left⟩ := found
        dsimp only
        rw [hbehind found (eq_of_lexeme? hlexeme) (ne_nil_of_lexeme? hlexeme)]

end Scan

/-- A text between two quotes of one kind. -/
def Text.IsQuoted (text : Text) : Prop :=
  ∃ quote inside, (quote = '\'' ∨ quote = '"') ∧ text = quote :: (inside ++ [quote])

/-- Strings stand between quotes, and no other token starts with one. -/
structure Token.Spelled (token : Token) : Prop where
  quoted : token.kind = .string → token.text.IsQuoted
  bare : token.kind ≠ .string → token.kind ≠ .broken →
    token.text.head? ≠ some '\'' ∧ token.text.head? ≠ some '"'

namespace Scan

variable {text found left : Text} {first : Bool} {kind : TokenKind}

/-- A string ends with its quote. -/
theorem exists_of_stringBody {quote : Char} (h : stringBody quote text = some (found, left)) :
    ∃ inside, found = inside ++ [quote] := by
  fun_induction stringBody quote text generalizing found with
  | case1 | case4 | case6 => cases h
  | case5 =>
    cases h
    exact ⟨[], rfl⟩
  | case2 | case3 | case7 =>
    rename_i ih
    obtain ⟨⟨body, more⟩, hbody, heq⟩ := Option.map_eq_some_iff.1 h
    cases heq
    obtain ⟨inside, rfl⟩ := ih hbody
    first
      | exact ⟨_ :: inside, rfl⟩
      | exact ⟨_ :: _ :: inside, rfl⟩
      | exact ⟨_ :: _ :: _ :: inside, rfl⟩

/-- A token is spelled by its kind. -/
theorem spelled_of_lexeme? (h : lexeme? first text = some (kind, found, left)) (position : Nat)
    (gap : Gap) : Token.Spelled ⟨kind, found, position, gap⟩ := by
  have hfront := eq_of_lexeme? h
  obtain ⟨c, more, rfl⟩ := List.exists_cons_of_ne_nil (ne_nil_of_lexeme? h)
  obtain rfl : text = c :: (more ++ left) := hfront
  -- what starts with another character is no string
  have hbare {kind : TokenKind} (hkind : kind ≠ .string) (hc : c ≠ '\'' ∧ c ≠ '"') :
      Token.Spelled ⟨kind, c :: more, position, gap⟩ :=
    ⟨fun hstring => absurd hstring hkind, fun _ _ =>
      ⟨fun hhead => hc.1 (Option.some.inj hhead), fun hhead => hc.2 (Option.some.inj hhead)⟩⟩
  rw [lexeme?] at h
  split at h
  · next hdigit =>
    obtain ⟨⟨number, _⟩, -, heq⟩ := Option.map_eq_some_iff.1 h
    cases heq
    refine hbare (by decide) ⟨?_, ?_⟩ <;> rintro rfl <;> cases hdigit
  split at h
  · next hquote =>
    obtain ⟨⟨body, _⟩, hbody, heq⟩ := Option.map_eq_some_iff.1 h
    cases heq
    obtain ⟨inside, rfl⟩ := exists_of_stringBody hbody
    exact ⟨fun _ => ⟨c, inside, hquote, rfl⟩, fun hkind => absurd rfl hkind⟩
  · next hquote =>
    refine hbare ?_ (not_or.1 hquote)
    rintro rfl
    split at h
    · split at h
      · cases h
      · obtain ⟨_, -, heq⟩ := Option.map_eq_some_iff.1 h
        cases heq
    split at h
    · cases h
    · obtain ⟨_, -, heq⟩ := Option.map_eq_some_iff.1 h
      cases heq

end Scan

/-- The tokens of a source from a position on. -/
def tokensAt (source : Text) (position : Nat) : List Token :=
  Token.scanRest position (Text.dropBytes position source)

/-- The first of the tokens stands in the source, and the others are the tokens
right behind it, or it is the last one. -/
def Contiguous (source : Text) : List Token → Prop
  | [] => True
  | token :: rest =>
    Stands source token.text token.start ∧ token.Spelled ∧
      (rest = [] ∨ rest = tokensAt source token.stop)

section Contiguous

variable {source before text : Text} {tokens : List Token}

/-- Cutting a source into tokens leaves out nothing behind the first of them. -/
theorem contiguous_tokensFrom {fuel : Nat} {first : Bool} {gap : Gap}
    (hsource : source = before ++ text) (hfuel : text.length < fuel) :
    Contiguous source (Scan.tokensFrom fuel first gap (Text.byteLength before) text) := by
  induction fuel generalizing before text first gap with
  | zero => exact absurd hfuel (Nat.not_lt_zero _)
  | succ fuel ih =>
    have hbehind {found left : Text} (heq : text = found ++ left) (hfound : found ≠ []) :
        left.length < fuel ∧ source = (before ++ found) ++ left := by
      have hpos := List.length_pos_iff.2 hfound
      rw [heq, List.length_append] at hfuel
      exact ⟨by omega, by rw [hsource, heq, List.append_assoc]⟩
    -- behind a comment or a blank the tokens are those of what is left
    have hgap (found : Text) {first : Bool} {gap : Gap} {left : Text}
        (heq : text = found ++ left) (hfound : found ≠ []) :
        Contiguous source (Scan.tokensFrom fuel first gap
          (Text.byteLength before + Text.byteLength found) left) := by
      obtain ⟨hlength, hleft⟩ := hbehind heq hfound
      rw [← Text.byteLength_append]
      exact ih hleft hlength
    have hbroken {gap : Gap} :
        Contiguous source [⟨.broken, text, Text.byteLength before, gap⟩] :=
      ⟨⟨before, [], by rw [hsource, List.append_nil], rfl⟩,
        ⟨fun hkind => TokenKind.noConfusion hkind, fun _ hkind => absurd rfl hkind⟩, .inl rfl⟩
    by_cases hline : ∃ rest, text = '/' :: '/' :: rest
    · obtain ⟨rest, rfl⟩ := hline
      rw [Scan.tokensFrom_lineComment]
      refine hgap ('/' :: '/' :: (Scan.cut (fun c => !Scan.endsLine c) rest).1) ?_
        (List.cons_ne_nil _ _)
      rw [List.cons_append, List.cons_append, Scan.cut_append]
    by_cases hblock : ∃ rest, text = '/' :: '*' :: rest
    · obtain ⟨rest, rfl⟩ := hblock
      rw [Scan.tokensFrom_blockComment]
      split
      · next body left hbody =>
        exact hgap ('/' :: '*' :: body) (by rw [Scan.eq_of_blockComment hbody]; rfl)
          (List.cons_ne_nil _ _)
      · exact hbroken
    cases text with
    | nil =>
      exact ⟨⟨before, [], hsource, rfl⟩,
        ⟨fun hkind => TokenKind.noConfusion hkind, fun _ _ =>
          ⟨(Option.some_ne_none _).symm, (Option.some_ne_none _).symm⟩⟩, .inl rfl⟩
    | cons c rest =>
      rw [Scan.tokensFrom_plain (fun more hc hrest => hline ⟨more, by rw [hc, hrest]⟩)
        fun more hc hrest => hblock ⟨more, by rw [hc, hrest]⟩]
      split
      · exact hgap [c] rfl (List.cons_ne_nil _ _)
      split
      · next kind found left hlexeme =>
        have heq := Scan.eq_of_lexeme? hlexeme
        obtain ⟨hlength, hleft⟩ := hbehind heq (Scan.ne_nil_of_lexeme? hlexeme)
        have hstands : Stands source found (Text.byteLength before) :=
          ⟨before, left, by rw [hsource, heq], rfl⟩
        have hspelled := Scan.spelled_of_lexeme? hlexeme (Text.byteLength before) gap
        split
        · exact ⟨hstands, hspelled, .inl rfl⟩
        · refine ⟨hstands, hspelled, .inr ?_⟩
          have hdrop : Text.dropBytes (Text.byteLength before + Text.byteLength found) source =
              left := by
            rw [hleft, ← Text.byteLength_append, Text.dropBytes_byteLength_append]
          rw [tokensAt, Token.stop, hdrop]
          exact Scan.tokensFrom_fuel hlength (Nat.lt_succ_self _)
      · exact hbroken

/-- The tokens of a source are contiguous. -/
theorem contiguous_scan : Contiguous source (Token.scan source) :=
  @contiguous_tokensFrom source [] source _ true .none rfl (Nat.lt_succ_self _)

/-- The tokens from a position on are contiguous. -/
theorem contiguous_tokensAt {position : Nat} (h : Cut source position) :
    Contiguous source (tokensAt source position) := by
  obtain ⟨before, hsource, rfl⟩ := h.dropBytes
  exact contiguous_tokensFrom hsource (Nat.lt_succ_self _)

/-- The tokens of what is left behind a piece of the source. -/
theorem contiguous_scanRest {position : Nat} {found left : Text} (h : Cut source position)
    (heq : Text.dropBytes position source = found ++ left) :
    Contiguous source (Token.scanRest (position + Text.byteLength found) left) := by
  obtain ⟨before, hsource, rfl⟩ := h.dropBytes
  rw [heq, ← List.append_assoc] at hsource
  rw [← Text.byteLength_append]
  exact contiguous_tokensFrom hsource (Nat.lt_succ_self _)

end Contiguous

/-- All tokens that readers leave are contiguous. -/
def contiguity (source : Text) : TokenInvariant source where
  Holds := Contiguous source
  Resumes := Cut source
  tail := by
    rintro token rest ⟨hstands, -, rfl | rfl⟩
    · trivial
    · exact contiguous_tokensAt hstands.cut_stop
  settled h := ⟨h.1, ⟨h.2.1.quoted, h.2.1.bare⟩, h.2.2⟩
  regex h hregex := contiguous_scanRest h.1.cut_start (Scan.eq_of_regex? hregex)
  opened h _ := h.1.cut_stop
  closed _ h _ := h.1.cut_stop
  template hcut htext := contiguous_scanRest hcut (Scan.eq_of_templateText htext)

end InterfaceSchema
