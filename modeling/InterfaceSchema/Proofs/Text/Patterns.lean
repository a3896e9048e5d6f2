import InterfaceSchema.Proofs.Layout
import InterfaceSchema.Text.Quoted
import Mathlib.Data.List.Infix

/-!
# Where a pattern cannot stand

A text is clear of a pattern if the pattern neither stands in it nor starts in
it, so that nothing behind the text can complete it. A pattern without line
ends stands in a text whose lines are shifted only if it stands in the text
itself, and one without quotes and backslashes stands in an escaped text only
if it stands in the text.
-/

namespace InterfaceSchema.Text

/-- No place in the text at which the pattern stands or starts. -/
def Clear (pattern text : Text) : Prop :=
  ∀ part, part <:+ text → part ≠ [] → ¬pattern <+: part ∧ ¬part <+: pattern

/-- The pattern does not go on in the text after it started before. -/
def Parted (pattern text : Text) : Prop :=
  ∀ part, part <:+ pattern → part ≠ [] → ¬part <+: text

variable {pattern text first second : Text}

/-- A text is clear of a pattern that does not stand in it if its last
character is none of the pattern. -/
theorem clear_of_last (hlacks : ¬pattern <:+: text) {last : Char}
    (hlast : text.getLast? = some last) (hmem : last ∉ pattern) : Clear pattern text := by
  intro part hpart hne
  refine ⟨fun hlead => hlacks (hlead.isInfix.trans hpart.isInfix), fun hlead => hmem ?_⟩
  obtain ⟨c, hc⟩ := Option.isSome_iff_exists.1 (List.getLast?_isSome.2 hne)
  obtain ⟨before, rfl⟩ := hpart
  rw [List.getLast?_append, hc] at hlast
  obtain rfl : c = last := Option.some.inj hlast
  exact hlead.subset (List.mem_of_getLast? hc)

/-- A pattern goes on in no text that starts with a character it does not
hold. -/
theorem parted_of_head {first : Char} (hfirst : text.head? = some first) (hmem : first ∉ pattern) :
    Parted pattern text := by
  intro part hpart hne hlead
  obtain ⟨c, more, rfl⟩ := List.exists_cons_of_ne_nil hne
  obtain ⟨after, rfl⟩ := hlead
  obtain rfl : c = first := Option.some.inj hfirst
  exact hmem (hpart.subset List.mem_cons_self)

/-- A pattern stands in none of two parts and does not go on in the second:
it does not stand in the whole. -/
theorem lacks_append (hfirst : ¬pattern <:+: first) (hsecond : ¬pattern <:+: second)
    (hparted : Parted pattern second) : ¬pattern <:+: first ++ second := by
  intro h
  rcases List.infix_append_iff_ne_nil.1 h with h | h | ⟨left, right, -, hright, rfl, -, hlead⟩
  · exact hfirst h
  · exact hsecond h
  · exact hparted right (List.suffix_append left right) hright hlead

/-- A pattern stands in none of two parts and cannot hold the last character
of the first: it does not stand in the whole. -/
theorem lacks_append_of_last (hfirst : ¬pattern <:+: first) (hsecond : ¬pattern <:+: second)
    {last : Char} (hlast : first.getLast? = some last) (hmem : last ∉ pattern) :
    ¬pattern <:+: first ++ second := by
  intro h
  rcases List.infix_append_iff_ne_nil.1 h with h | h | ⟨left, right, hleft, -, rfl, hsuffix, -⟩
  · exact hfirst h
  · exact hsecond h
  · obtain ⟨c, hc⟩ := Option.isSome_iff_exists.1 (List.getLast?_isSome.2 hleft)
    obtain ⟨before, rfl⟩ := hsuffix
    rw [List.getLast?_append, hc] at hlast
    obtain rfl : c = last := Option.some.inj hlast
    exact hmem (List.mem_append_left _ (List.mem_of_getLast? hc))

/-- A text that is decided not to start another one does not start it. -/
theorem not_prefix_of_isPrefixOf (h : first.isPrefixOf second = false) : ¬first <+: second :=
  fun hlead => by
    rw [List.isPrefixOf_iff_prefix.2 hlead] at h
    cases h

/-- Whether a pattern stands in a fixed text. -/
def isInside (pattern text : Text) : Bool := text.tails.any fun part => pattern.isPrefixOf part

/-- A pattern for which this is denied does not stand in the text. -/
theorem lacks_of_isInside (h : isInside pattern text = false) : ¬pattern <:+: text := by
  rintro ⟨before, after, rfl⟩
  have hpart := List.any_eq_false.1 h (pattern ++ after)
    ((List.mem_tails _ _).2 ⟨before, (List.append_assoc _ _ _).symm⟩)
  exact hpart (List.isPrefixOf_iff_prefix.2 (List.prefix_append pattern after))

/-- Whether a fixed text is clear of a pattern. -/
def isClear (pattern text : Text) : Bool :=
  text.tails.all fun part =>
    part.isEmpty || (!pattern.isPrefixOf part && !part.isPrefixOf pattern)

/-- A fixed text for which this is decided is clear. -/
theorem clear_of_isClear (h : isClear pattern text = true) : Clear pattern text := by
  intro part hpart hne
  have hclear := List.all_eq_true.1 h part ((List.mem_tails part text).2 hpart)
  rw [Bool.or_eq_true, Bool.and_eq_true, Bool.not_eq_true', Bool.not_eq_true',
    List.isEmpty_iff] at hclear
  rcases hclear with hnil | ⟨hstands, hstarts⟩
  · exact absurd hnil hne
  · exact ⟨not_prefix_of_isPrefixOf hstands, not_prefix_of_isPrefixOf hstarts⟩

/-- Whether a pattern cannot go on into a fixed text. -/
def isParted (pattern text : Text) : Bool :=
  pattern.tails.all fun part =>
    part.isEmpty || (!part.isPrefixOf text && !text.isPrefixOf part)

/-- A pattern does not go on into a text that starts with a fixed text for
which this is decided. -/
theorem parted_of_isParted (h : isParted pattern first = true) (second : Text) :
    Parted pattern (first ++ second) := by
  intro part hpart hne hlead
  have hparted := List.all_eq_true.1 h part ((List.mem_tails part pattern).2 hpart)
  rw [Bool.or_eq_true, Bool.and_eq_true, Bool.not_eq_true', Bool.not_eq_true',
    List.isEmpty_iff] at hparted
  rcases hparted with hnil | ⟨hlong, hshort⟩
  · exact hne hnil
  · rcases List.prefix_or_prefix_of_prefix hlead (List.prefix_append first second) with
      hlead | hlead
    · exact not_prefix_of_isPrefixOf hlong hlead
    · exact not_prefix_of_isPrefixOf hshort hlead

/-- A pattern stands at no place in a text that is clear of it, whatever
follows. -/
theorem Clear.not_lead {part : Text} (hclear : Clear pattern first) (hpart : part <:+ first)
    (hne : part ≠ []) (second : Text) : ¬pattern <+: part ++ second := by
  obtain ⟨hstands, hstarts⟩ := hclear part hpart hne
  intro hlead
  rcases List.prefix_or_prefix_of_prefix hlead (List.prefix_append part second) with
    hlead | hlead
  · exact hstands hlead
  · exact hstarts hlead

/-- Two texts that are clear of a pattern are clear of it one after the
other. -/
theorem Clear.append (hfirst : Clear pattern first) (hsecond : Clear pattern second) :
    Clear pattern (first ++ second) := by
  rintro part ⟨before, hpart⟩ hne
  rcases List.append_eq_append_iff.1 hpart with ⟨front, rfl, rfl⟩ | ⟨middle, -, rfl⟩
  · by_cases hnil : front = []
    · subst hnil
      exact hsecond _ (List.suffix_refl _) hne
    have hfront : front <:+ before ++ front := List.suffix_append _ _
    obtain ⟨-, hstarts⟩ := hfirst front hfront hnil
    exact ⟨hfirst.not_lead hfront hnil second,
      fun hlead => hstarts ((List.prefix_append _ _).trans hlead)⟩
  · exact hsecond part (List.suffix_append _ _) hne

/-- A pattern that does not stand in a text does not stand there behind a text
that is clear of it. -/
theorem Clear.lacks_append (hclear : Clear pattern first) (h : ¬pattern <:+: second) :
    ¬pattern <:+: first ++ second := by
  induction first with
  | nil => exact h
  | cons c rest ih =>
    have hrest : Clear pattern rest := fun part hpart =>
      hclear part (hpart.trans (List.suffix_cons c rest))
    intro hinside
    rcases List.infix_cons_iff.1 hinside with hlead | hinside
    · exact hclear.not_lead (List.suffix_refl _) (List.cons_ne_nil _ _) second hlead
    · exact ih hrest hinside

/-- A pattern without quotes and backslashes at the front of an escaped text
stands at the front of the text. -/
theorem prefix_of_prefix_escape (hquote : '\'' ∉ pattern) (hslash : '\\' ∉ pattern)
    (h : pattern <+: escape text) : pattern <+: text := by
  induction pattern generalizing text with
  | nil => exact List.nil_prefix
  | cons c rest ih =>
    rw [List.mem_cons, not_or] at hquote hslash
    cases text with
    | nil => simp [escape] at h
    | cons d more =>
      rw [escape] at h
      split at h
      · obtain ⟨rfl, -⟩ := List.cons_prefix_cons.1 h
        exact absurd rfl hslash.1
      · obtain ⟨rfl, hmore⟩ := List.cons_prefix_cons.1 h
        exact List.cons_prefix_cons.2 ⟨rfl, ih hquote.2 hslash.2 hmore⟩

/-- A pattern without quotes and backslashes that does not stand in a text
does not stand in the escaped text. -/
theorem lacks_escape (hne : pattern ≠ []) (hquote : '\'' ∉ pattern) (hslash : '\\' ∉ pattern)
    (h : ¬pattern <:+: text) : ¬pattern <:+: escape text := by
  have hfront {text : Text} {c : Char} (hc : c = '\\' ∨ c = '\'') : ¬pattern <+: c :: text := by
    obtain ⟨d, rest, rfl⟩ := List.exists_cons_of_ne_nil hne
    intro hlead
    obtain ⟨rfl, -⟩ := List.cons_prefix_cons.1 hlead
    rcases hc with rfl | rfl
    · exact hslash List.mem_cons_self
    · exact hquote List.mem_cons_self
  induction text with
  | nil => exact h
  | cons c rest ih =>
    have hrest := ih fun hinside => h (List.infix_cons_iff.2 (.inr hinside))
    intro hinside
    rw [escape] at hinside
    split at hinside
    · next hc =>
      rcases List.infix_cons_iff.1 hinside with hlead | hinside
      · exact hfront (.inl rfl) hlead
      rcases List.infix_cons_iff.1 hinside with hlead | hinside
      · exact hfront hc hlead
      · exact hrest hinside
    · next hc =>
      rcases List.infix_cons_iff.1 hinside with hlead | hinside
      · have hescape : escape (c :: rest) = c :: escape rest := by rw [escape, if_neg hc]
        rw [← hescape] at hlead
        exact h (prefix_of_prefix_escape hquote hslash hlead).isInfix
      · exact hrest hinside

/-- A pattern without quotes and backslashes that does not stand in a text
does not stand in the quoted text. -/
theorem lacks_quote (hne : pattern ≠ []) (hquote : '\'' ∉ pattern) (hslash : '\\' ∉ pattern)
    (h : ¬pattern <:+: text) : ¬pattern <:+: quote text := by
  have hsingle : ¬pattern <:+: ['\''] := fun hinside => by
    obtain ⟨c, rest, rfl⟩ := List.exists_cons_of_ne_nil hne
    exact hquote (List.mem_singleton.1 (hinside.subset List.mem_cons_self) ▸ List.mem_cons_self)
  have hbody : ¬pattern <:+: escape text ++ ['\''] :=
    lacks_append (lacks_escape hne hquote hslash h) hsingle (parted_of_head rfl hquote)
  exact lacks_append_of_last hsingle hbody rfl hquote

/-- A property key holds no pattern that the name does not. -/
theorem lacks_propertyKey (hne : pattern ≠ []) (hquote : '\'' ∉ pattern) (hslash : '\\' ∉ pattern)
    (h : ¬pattern <:+: text) : ¬pattern <:+: propertyKey text := by
  rw [propertyKey]
  split
  · exact h
  · exact lacks_quote hne hquote hslash h

/-- A pattern without line feeds at the front of a text whose lines are
shifted stands at the front of the text. -/
theorem prefix_of_prefix_shift (hfeed : '\n' ∉ pattern) (h : pattern <+: Layout.shift text) :
    pattern <+: text := by
  induction pattern generalizing text with
  | nil => exact List.nil_prefix
  | cons c rest ih =>
    rw [List.mem_cons, not_or] at hfeed
    cases text using Layout.shift.fun_cases with
    | case1 => simp [Layout.shift] at h
    | case2 more =>
      rw [Layout.shift] at h
      exact absurd (List.cons_prefix_cons.1 h).1.symm hfeed.1
    | case3 more =>
      rw [Layout.shift] at h
      exact absurd (List.cons_prefix_cons.1 h).1.symm hfeed.1
    | case4 d more hline hreturn =>
      rw [Layout.shift.eq_4 d more hline hreturn] at h
      obtain ⟨rfl, hmore⟩ := List.cons_prefix_cons.1 h
      exact List.cons_prefix_cons.2 ⟨rfl, ih hfeed.2 hmore⟩

/-- A pattern on one line that does not start with a blank and does not stand
in a text does not stand there when the lines are shifted. -/
theorem lacks_shift (hne : pattern ≠ []) (hfeed : '\n' ∉ pattern)
    (hblank : pattern.head? ≠ some ' ') (h : ¬pattern <:+: text) : ¬pattern <:+: Layout.shift text := by
  have hfront {text : Text} {c : Char} (hc : c = '\n' ∨ c = ' ') : ¬pattern <+: c :: text := by
    obtain ⟨d, rest, rfl⟩ := List.exists_cons_of_ne_nil hne
    intro hlead
    obtain ⟨rfl, -⟩ := List.cons_prefix_cons.1 hlead
    rcases hc with rfl | rfl
    · exact hfeed List.mem_cons_self
    · exact hblank rfl
  have hline {text : Text} (htext : ¬pattern <:+: text) :
      ¬pattern <:+: '\n' :: ' ' :: ' ' :: text := by
    intro hinside
    rcases List.infix_cons_iff.1 hinside with hlead | hinside
    · exact hfront (.inl rfl) hlead
    rcases List.infix_cons_iff.1 hinside with hlead | hinside
    · exact hfront (.inr rfl) hlead
    rcases List.infix_cons_iff.1 hinside with hlead | hinside
    · exact hfront (.inr rfl) hlead
    · exact htext hinside
  have htail {c : Char} {rest : Text} (h : ¬pattern <:+: c :: rest) : ¬pattern <:+: rest :=
    fun hinside => h (List.infix_cons_iff.2 (.inr hinside))
  fun_induction Layout.shift text with
  | case1 => exact h
  | case2 rest ih => exact hline (ih (htail h))
  | case3 rest ih => exact hline (ih (htail (htail h)))
  | case4 c rest hfeed' hreturn ih =>
    intro hinside
    rcases List.infix_cons_iff.1 hinside with hlead | hinside
    · rw [← Layout.shift.eq_4 c rest hfeed' hreturn] at hlead
      exact h (prefix_of_prefix_shift hfeed hlead).isInfix
    · exact ih (htail h) hinside

/-- The text without blanks at its ends, if it has none there. -/
theorem trim_eq_self {text : Text} {first last : Char} (hfirst : text.head? = some first)
    (hlast : text.getLast? = some last) (hstart : isBlank first = false)
    (hstop : isBlank last = false) : trim text = text := by
  obtain ⟨rest, rfl⟩ : ∃ rest, text = first :: rest := List.head?_eq_some_iff.1 hfirst
  have htrimStart : trimStart (first :: rest) = first :: rest := by
    rw [trimStart, List.dropWhile_cons, hstart]
    rfl
  obtain ⟨before, hbefore⟩ := List.getLast?_eq_some_iff.1 hlast
  rw [trim, htrimStart, hbefore, trimEnd, List.reverse_append, List.reverse_singleton,
    List.singleton_append, List.dropWhile_cons, hstop]
  simp

/-- Taking blanks from the ends makes no text longer. -/
theorem length_trim_le (text : Text) : (trim text).length ≤ text.length := by
  have hdrop (text : Text) : (text.dropWhile isBlank).length ≤ text.length :=
    (List.dropWhile_suffix _).length_le
  have hend := hdrop (trimStart text).reverse
  have hstart := hdrop text
  rw [trim, trimEnd, List.length_reverse]
  rw [List.length_reverse] at hend
  exact Nat.le_trans hend hstart

end InterfaceSchema.Text
