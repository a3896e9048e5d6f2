import InterfaceSchema.Proofs.Text.Patterns
import InterfaceSchema.Text.Blank
import Mathlib.Data.List.TakeWhile

/-!
# The literals of a text

Code is read character by character. A literal goes from a quote to the next
quote of its kind; the character behind a backslash does not end it. What is
read of a text depends on the text before it only through where the reader
stands, and where it stands outside of literals, a text without quotes says
nothing.
-/

namespace InterfaceSchema.Text

/-- What a literal stands between. -/
inductive Quote where
  | single
  | double
  | back
deriving DecidableEq, Repr

/-- The quote that a character is. -/
def quoteOf? : Char → Option Quote
  | '\'' => some .single
  | '"' => some .double
  | '`' => some .back
  | _ => none

/-- Where a reader of code stands. -/
inductive Reading.Spot where
  /-- Outside of literals. -/
  | code
  /-- In a literal, of which this has been read. -/
  | literal (quote : Quote) (read : Text)
  /-- Right behind a backslash in such a literal. -/
  | escaped (quote : Quote) (read : Text)
deriving DecidableEq, Repr

/-- What has been read of the literal at this spot. -/
def Reading.Spot.opened : Reading.Spot → Option Text
  | .code => none
  | .literal _ read | .escaped _ read => some read

/-- What a reader of code has found and where it stands. -/
structure Reading where
  /-- The literals that have been read to their ends. -/
  closed : List Text
  spot : Reading.Spot
deriving DecidableEq, Repr

namespace Reading

/-- Nothing has been read yet. -/
def start : Reading := ⟨[], .code⟩

/-- One character more. -/
def step (reading : Reading) (c : Char) : Reading :=
  match reading.spot with
  | .code =>
    match quoteOf? c with
    | some quote => ⟨reading.closed, .literal quote [c]⟩
    | none => reading
  | .literal quote read =>
    if quoteOf? c = some quote then ⟨reading.closed ++ [read ++ [c]], .code⟩
    else if c = '\\' then ⟨reading.closed, .escaped quote (read ++ [c])⟩
    else ⟨reading.closed, .literal quote (read ++ [c])⟩
  | .escaped quote read => ⟨reading.closed, .literal quote (read ++ [c])⟩

/-- A text more. -/
def through (reading : Reading) (text : Text) : Reading := text.foldl step reading

/-- The literals found so far; one that is not closed goes on to the end. -/
def literals (reading : Reading) : List Text := reading.closed ++ reading.spot.opened.toList

/-- The reading with more literals found before. -/
def behind (more : List Text) (reading : Reading) : Reading :=
  ⟨more ++ reading.closed, reading.spot⟩

end Reading

/-- The literals of a text with their quotes, in order. -/
def literals (text : Text) : List Text := (Reading.start.through text).literals

/-- A text that says nothing to a reader outside of literals, and ends none
inside of them. -/
def Unquoted (text : Text) : Prop := ∀ c ∈ text, quoteOf? c = none ∧ c ≠ '\\'

/-- A fixed text for which this is decided says nothing. -/
theorem unquoted_of_all {text : Text}
    (h : text.all (fun c => (quoteOf? c).isNone && c != '\\') = true) : Unquoted text := by
  intro c hc
  have hsign := List.all_eq_true.1 h c hc
  rw [Bool.and_eq_true, Option.isNone_iff_eq_none, bne_iff_ne] at hsign
  exact hsign

/-- A text through which a reader comes out of all literals. -/
def Balanced (text : Text) : Prop :=
  ∀ reading : Reading, reading.spot = .code → (reading.through text).spot = .code

/-- A pattern stands in what is read of a text outside of literals only. -/
def Outside (pattern : Text) (reading : Reading) (text : Text) : Prop :=
  ∀ before after, text = before ++ (pattern ++ after) → (reading.through before).spot = .code

namespace Reading

variable {reading other : Reading} {text read : Text} {parts : List Text}

/-- One part is read after the other. -/
theorem through_append (reading : Reading) (first second : Text) :
    reading.through (first ++ second) = (reading.through first).through second :=
  List.foldl_append

/-- A character is read before those behind it. -/
theorem through_cons (reading : Reading) (c : Char) (rest : Text) :
    reading.through (c :: rest) = (reading.step c).through rest := rfl

/-- What was found before changes nothing for one character more. -/
theorem step_behind (more : List Text) (reading : Reading) (c : Char) :
    (reading.behind more).step c = (reading.step c).behind more := by
  obtain ⟨closed, spot⟩ := reading
  cases spot with
  | code =>
    simp only [step, behind]
    cases quoteOf? c <;> rfl
  | literal quote read =>
    simp only [step, behind]
    split
    · rw [List.append_assoc]
    · split <;> rfl
  | escaped quote read => rfl

/-- What was found before changes nothing for a text more. -/
theorem through_behind (more : List Text) (reading : Reading) (text : Text) :
    (reading.behind more).through text = (reading.through text).behind more := by
  induction text generalizing reading with
  | nil => rfl
  | cons c rest ih => rw [through_cons, step_behind, ih, through_cons]

/-- A reader outside of literals adds what it finds to what it has found. -/
theorem eq_behind (hspot : reading.spot = .code) : reading = start.behind reading.closed := by
  obtain ⟨closed, spot⟩ := reading
  cases hspot
  rw [behind, start, List.append_nil]

/-- From outside of literals, a reader finds the literals of the text. -/
theorem literals_through (hspot : reading.spot = .code) (text : Text) :
    (reading.through text).literals = reading.closed ++ Text.literals text := by
  rw [eq_behind hspot, through_behind]
  simp only [literals, Text.literals, behind, start, List.append_nil, List.append_assoc]

/-- Where a reader stands behind a text depends on where it stood before. -/
theorem spot_through (hspot : reading.spot = .code) (hother : other.spot = .code) (text : Text) :
    (reading.through text).spot = (other.through text).spot := by
  rw [eq_behind hspot, eq_behind hother, through_behind, through_behind]
  rfl

/-- A text without quotes says nothing outside of literals. -/
theorem through_unquoted (hspot : reading.spot = .code) (h : Unquoted text) :
    reading.through text = reading := by
  induction text with
  | nil => rfl
  | cons c rest ih =>
    have hstep : reading.step c = reading := by
      rw [step, hspot]
      dsimp only
      rw [(h c List.mem_cons_self).1]
    rw [through_cons, hstep, ih fun d hd => h d (List.mem_cons_of_mem _ hd)]

/-- In a literal a text without quotes belongs to the literal. -/
theorem opened_through (hopened : reading.spot.opened = some read) (h : Unquoted text) :
    (reading.through text).spot.opened = some (read ++ text) := by
  induction text generalizing reading read with
  | nil => rw [List.append_nil]; exact hopened
  | cons c rest ih =>
    obtain ⟨hquote, hslash⟩ := h c List.mem_cons_self
    have hstep : (reading.step c).spot.opened = some (read ++ [c]) := by
      obtain ⟨closed, spot⟩ := reading
      cases spot with
      | code => cases hopened
      | literal quote part =>
        cases hopened
        simp only [step]
        rw [if_neg (by rw [hquote]; nofun), if_neg hslash]
        rfl
      | escaped quote part =>
        cases hopened
        rfl
    rw [through_cons, ih hstep fun d hd => h d (List.mem_cons_of_mem _ hd), List.append_assoc]
    rfl

/-- No literal is forgotten. -/
theorem closed_through (reading : Reading) (text : Text) :
    reading.closed <+: (reading.through text).closed := by
  induction text generalizing reading with
  | nil => exact List.prefix_refl _
  | cons c rest ih =>
    refine List.IsPrefix.trans ?_ (ih (reading.step c))
    obtain ⟨closed, spot⟩ := reading
    cases spot with
    | code =>
      simp only [step]
      cases quoteOf? c <;> exact List.prefix_refl _
    | literal quote read =>
      simp only [step]
      split
      · exact List.prefix_append _ _
      · split <;> exact List.prefix_refl _
    | escaped quote read => exact List.prefix_refl _

/-- What has been read of a literal is the start of one of the literals. -/
theorem exists_literal_of_opened (hopened : reading.spot.opened = some read) (text : Text) :
    ∃ literal ∈ (reading.through text).literals, read <+: literal := by
  induction text generalizing reading read with
  | nil =>
    refine ⟨read, ?_, List.prefix_refl _⟩
    rw [through, List.foldl_nil, literals, hopened]
    exact List.mem_append_right _ (List.mem_singleton.2 rfl)
  | cons c rest ih =>
    have hstep : (reading.step c).spot.opened = some (read ++ [c]) ∨
        read ++ [c] ∈ (reading.step c).closed := by
      obtain ⟨closed, spot⟩ := reading
      cases spot with
      | code => cases hopened
      | literal quote part =>
        cases hopened
        simp only [step]
        split
        · exact .inr (List.mem_append_right _ (List.mem_singleton.2 rfl))
        · split <;> exact .inl rfl
      | escaped quote part =>
        cases hopened
        exact .inl rfl
    rcases hstep with hopened | hclosed
    · obtain ⟨literal, hliteral, hlead⟩ := ih hopened
      exact ⟨literal, hliteral, (List.prefix_append _ _).trans hlead⟩
    · have hkept := (closed_through (reading.step c) rest).subset hclosed
      exact ⟨read ++ [c], List.mem_append_left _ hkept, List.prefix_append _ _⟩

/-- A reader goes through balanced texts and what separates them. -/
theorem through_joinWith (hspot : reading.spot = .code) {separator : Text}
    (hseparator : Unquoted separator) (hparts : ∀ part ∈ parts, Balanced part) :
    reading.through (joinWith separator parts) = parts.foldl through reading := by
  induction parts generalizing reading with
  | nil => rfl
  | cons first rest ih =>
    have hfirst := hparts first List.mem_cons_self reading hspot
    have hrest := ih hfirst fun part hpart => hparts part (List.mem_cons_of_mem _ hpart)
    cases rest with
    | nil => simp
    | cons second others =>
      rw [joinWith_cons_cons, through_append, through_append, through_unquoted hfirst hseparator, hrest]
      rfl

/-- Balanced texts one after the other are read to code. -/
theorem spot_foldl (hspot : reading.spot = .code) (hparts : ∀ part ∈ parts, Balanced part) :
    (parts.foldl through reading).spot = .code := by
  induction parts generalizing reading with
  | nil => exact hspot
  | cons first rest ih =>
    exact ih (hparts first List.mem_cons_self reading hspot) fun part hpart =>
      hparts part (List.mem_cons_of_mem _ hpart)

/-- Balanced texts may be replaced by texts that are read alike. -/
theorem foldl_map (hspot : reading.spot = .code) {f : Text → Text}
    (hparts : ∀ part ∈ parts, Balanced part)
    (hsame : ∀ part ∈ parts, ∀ reading : Reading, reading.spot = .code →
      reading.through (f part) = reading.through part) :
    (parts.map f).foldl through reading = parts.foldl through reading := by
  induction parts generalizing reading with
  | nil => rfl
  | cons first rest ih =>
    have hfirst := hparts first List.mem_cons_self reading hspot
    have hrest := ih hfirst (fun part hpart => hparts part (List.mem_cons_of_mem _ hpart))
      fun part hpart => hsame part (List.mem_cons_of_mem _ hpart)
    rw [List.map_cons, List.foldl_cons, hsame first List.mem_cons_self reading hspot, hrest]
    rfl

end Reading

section Patterns

variable {reading other : Reading} {text first second pattern : Text}

/-- A pattern without quotes that stands in no literal of a text stands
outside of them only. -/
theorem outside_of_literals (hpattern : Unquoted pattern)
    (h : ∀ literal ∈ (reading.through text).literals, ¬pattern <:+: literal) :
    Outside pattern reading text := by
  intro before after htext
  by_contra hspot
  obtain ⟨read, hopened⟩ : ∃ read, (reading.through before).spot.opened = some read := by
    cases hcase : (reading.through before).spot with
    | code => exact absurd hcase hspot
    | literal quote read => exact ⟨read, rfl⟩
    | escaped quote read => exact ⟨read, rfl⟩
  have hthrough := Reading.opened_through hopened hpattern
  obtain ⟨literal, hliteral, hlead⟩ := Reading.exists_literal_of_opened hthrough after
  rw [← Reading.through_append, ← Reading.through_append, ← htext] at hliteral
  exact h literal hliteral ((List.suffix_append _ _).isInfix.trans hlead.isInfix)

/-- A pattern that stands outside of literals in a text does so in each part
of it. -/
theorem Outside.part {before after : Text}
    (h : Outside pattern reading (before ++ (text ++ after))) :
    Outside pattern (reading.through before) text := by
  rintro left right rfl
  have hspot := h (before ++ left) (right ++ after) (by simp only [List.append_assoc])
  rwa [Reading.through_append] at hspot

/-- A pattern that stands outside of literals in a text does so behind its
start. -/
theorem Outside.drop (h : Outside pattern reading (first ++ second)) :
    Outside pattern (reading.through first) second := by
  have hpart := @Outside.part reading second pattern first []
  rw [List.append_nil] at hpart
  exact hpart h

/-- What was found before changes nothing for where a pattern stands. -/
theorem Outside.of_code (hspot : reading.spot = .code) (hother : other.spot = .code)
    (h : Outside pattern reading text) : Outside pattern other text := fun before after htext =>
  (Reading.spot_through hother hspot before).trans (h before after htext)

end Patterns

section Parts

variable {reading : Reading} {text first second before after pattern separator : Text}
  {parts : List Text}

/-- A text without quotes is balanced. -/
theorem Unquoted.balanced (h : Unquoted text) : Balanced text := fun reading hspot => by
  rw [Reading.through_unquoted hspot h]
  exact hspot

/-- Blanks are no quotes. -/
theorem unquoted_of_isBlank (h : ∀ c ∈ text, isBlank c = true) : Unquoted text := by
  intro c hc
  have hblank := h c hc
  constructor
  · unfold quoteOf?
    split
    · exact absurd hblank (by decide)
    · exact absurd hblank (by decide)
    · exact absurd hblank (by decide)
    · rfl
  · rintro rfl
    exact absurd hblank (by decide)

/-- Balanced texts one after the other are balanced. -/
theorem Balanced.append (hfirst : Balanced first) (hsecond : Balanced second) :
    Balanced (first ++ second) := fun reading hspot => by
  rw [Reading.through_append]
  exact hsecond _ (hfirst reading hspot)

/-- What stands between texts without quotes is read like the whole. -/
theorem Balanced.between (h : Balanced (before ++ (text ++ after))) (hbefore : Unquoted before)
    (hafter : Unquoted after) (hspot : reading.spot = .code) :
    (reading.through text).spot = .code ∧
      reading.through (before ++ (text ++ after)) = reading.through text := by
  have hwhole := h reading hspot
  rw [Reading.through_append, Reading.through_unquoted hspot hbefore,
    Reading.through_append] at hwhole ⊢
  -- in a literal, what follows would go on in it
  have hcode : (reading.through text).spot = .code := by
    cases hopened : (reading.through text).spot.opened with
    | none =>
      cases hcase : (reading.through text).spot with
      | code => rfl
      | literal quote read => rw [hcase] at hopened; cases hopened
      | escaped quote read => rw [hcase] at hopened; cases hopened
    | some read =>
      have hstill := Reading.opened_through hopened hafter
      rw [hwhole] at hstill
      cases hstill
  exact ⟨hcode, Reading.through_unquoted hcode hafter⟩

/-- Blanks around a text are what trimming takes away. -/
theorem exists_trim (text : Text) : ∃ before after, text = before ++ (trim text ++ after) ∧
    Unquoted before ∧ Unquoted after := by
  refine ⟨text.takeWhile isBlank, ((trimStart text).reverse.takeWhile isBlank).reverse, ?_,
    unquoted_of_isBlank fun c => List.mem_takeWhile_imp,
    unquoted_of_isBlank fun c hc => List.mem_takeWhile_imp (List.mem_reverse.1 hc)⟩
  have hend : trimStart text =
      trim text ++ ((trimStart text).reverse.takeWhile isBlank).reverse := by
    rw [trim, trimEnd, ← List.reverse_append, List.takeWhile_append_dropWhile, List.reverse_reverse]
  rw [← hend]
  exact List.takeWhile_append_dropWhile.symm

/-- A balanced text and what is left of it without blanks at its ends are read
alike. -/
theorem Balanced.trim (h : Balanced text) : Balanced (Text.trim text) ∧
    ∀ reading : Reading, reading.spot = .code →
      reading.through (Text.trim text) = reading.through text := by
  obtain ⟨before, after, htext, hbefore, hafter⟩ := exists_trim text
  rw [htext] at h
  refine ⟨fun reading hspot => (h.between hbefore hafter hspot).1, fun reading hspot => ?_⟩
  have hsame := (h.between hbefore hafter hspot).2
  rw [← htext] at hsame
  exact hsame.symm

/-- What stands before a part in a row of balanced parts is balanced. -/
theorem exists_of_mem_joinWith (hseparator : Unquoted separator)
    (hparts : ∀ part ∈ parts, Balanced part) (hmem : text ∈ parts) :
    ∃ before after, joinWith separator parts = before ++ (text ++ after) ∧ Balanced before := by
  induction parts with
  | nil => exact absurd hmem List.not_mem_nil
  | cons first rest ih =>
    have hrest : ∀ part ∈ rest, Balanced part := fun part hpart =>
      hparts part (List.mem_cons_of_mem _ hpart)
    cases rest with
    | nil =>
      obtain rfl := List.mem_singleton.1 hmem
      exact ⟨[], [], by simp, fun reading hspot => hspot⟩
    | cons second others =>
      have hjoin := joinWith_cons_cons separator first second others
      rcases List.mem_cons.1 hmem with rfl | hmem
      · exact ⟨[], _, hjoin, fun reading hspot => hspot⟩
      · obtain ⟨before, after, heq, hbefore⟩ := ih hrest hmem
        refine ⟨first ++ (separator ++ before), after, ?_,
          (hparts first List.mem_cons_self).append (hseparator.balanced.append hbefore)⟩
        rw [hjoin, heq]
        simp only [List.append_assoc]

/-- A pattern that stands outside of literals in a text does so in a part of it
behind a balanced one. -/
theorem Outside.of_balanced (h : Outside pattern reading (before ++ (text ++ after)))
    (hspot : reading.spot = .code) (hbefore : Balanced before) : Outside pattern reading text :=
  h.part.of_code (hbefore reading hspot) hspot

end Parts

end InterfaceSchema.Text
