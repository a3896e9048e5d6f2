import InterfaceSchema.Proofs.Dialect.Upholding

/-!
# Brackets

Round, square and curly brackets of code are closed by their own kind, the innermost
first; what stands between single quotes is no code. A text is read from left to right
with the brackets in mind that are still to be closed.
-/

namespace InterfaceSchema

namespace Brackets

/-- What a character is read as. -/
inductive Mode where
  | code
  /-- Text between single quotes. -/
  | quoted
  /-- The character behind a backslash between quotes. -/
  | escaped
deriving DecidableEq, Repr

/-- How far a text is read. -/
structure Place where
  /-- What closes the brackets that are open, the innermost first. -/
  closers : List Char
  mode : Mode
deriving DecidableEq, Repr

/-- What closes a bracket. -/
def closer? (c : Char) : Option Char :=
  if c = '(' then some ')' else if c = '[' then some ']' else if c = '\x7b' then some '\x7d' else none

/-- Whether the character closes a bracket. -/
def isCloser (c : Char) : Bool := c == ')' || c == ']' || c == '\x7d'

/-- Read one character more. A bracket is closed only if it is the innermost one. -/
def step (place : Place) (c : Char) : Option Place :=
  match place.mode with
  | .escaped => some { place with mode := .quoted }
  | .quoted =>
    if c = '\\' then some { place with mode := .escaped }
    else if c = '\'' then some { place with mode := .code }
    else some place
  | .code =>
    if c = '\'' then some { place with mode := .quoted }
    else
      match closer? c with
      | some closer => some { place with closers := closer :: place.closers }
      | none =>
        if isCloser c then
          match place.closers with
          | [] => none
          | innermost :: outer => if c = innermost then some { place with closers := outer } else none
        else some place

/-- Read a text. -/
def through (place : Place) : Text → Option Place
  | [] => some place
  | c :: rest => (step place c).bind fun next => through next rest

/-- Whether the character is neither a bracket nor a single quote. -/
def isNeutral (c : Char) : Bool := c != '\'' && (closer? c).isNone && !isCloser c

/-- The text leads from code inside some brackets to code inside others. -/
def Turns (before after : List Char) (text : Text) : Prop :=
  ∀ outer, through ⟨before ++ outer, .code⟩ text = some ⟨after ++ outer, .code⟩

/-- Every bracket that is opened in the text is closed in it, and so is every string. -/
abbrev Balanced (text : Text) : Prop := Turns [] [] text

end Brackets

/-- Every bracket of the text is closed by its own kind in proper nesting, nothing is
closed that is not open, and every string comes to its end. -/
def Text.WellBracketed (text : Text) : Prop :=
  Brackets.through ⟨[], .code⟩ text = some ⟨[], .code⟩

namespace Brackets

section Reading

variable {place next : Place} {before middle after closers : List Char} {c : Char}
  {first second text : Text}

/-- A text is read part by part. -/
theorem through_append (place : Place) (first second : Text) :
    through place (first ++ second) = (through place first).bind fun next => through next second := by
  induction first generalizing place with
  | nil => rfl
  | cons c rest ih =>
    rw [List.cons_append, through, through]
    cases step place c with
    | none => rfl
    | some next => exact ih next

/-- A balanced text is well bracketed. -/
theorem Balanced.wellBracketed (h : Balanced text) : text.WellBracketed := h []

/-- One text leads on from where another leads. -/
theorem Turns.append (hfirst : Turns before middle first) (hsecond : Turns middle after second) :
    Turns before after (first ++ second) := by
  intro outer
  rw [through_append, hfirst outer]
  exact hsecond outer

/-- A balanced text leads back to where it started. -/
theorem Balanced.inside (h : Balanced text) (closers : List Char) : Turns closers closers text :=
  fun outer => h (closers ++ outer)

/-- A balanced text stands between brackets. -/
theorem Balanced.between (hopening : Turns [] closers first) (h : Balanced text)
    (hclosing : Turns closers [] second) : Balanced (first ++ text ++ second) :=
  (hopening.append (h.inside closers)).append hclosing

/-- What stands behind a text that leads on starts where that text leads. -/
theorem Turns.behind (h : Turns before after (first ++ second))
    (hfirst : Turns before middle first) : Turns middle after second := by
  intro outer
  have hboth := h outer
  rw [through_append, hfirst outer] at hboth
  exact hboth

/-- Without a quote, a character that is read as code leads to code, and only such a
character does. -/
theorem mode_of_step (hc : c ≠ '\'') (h : step place c = some next) (hnext : next.mode = .code) :
    place.mode = .code := by
  obtain ⟨closers, mode⟩ := place
  cases mode with
  | code => rfl
  | escaped =>
    obtain rfl := Option.some.inj h
    cases hnext
  | quoted =>
    simp only [step, if_neg hc] at h
    split at h <;> obtain rfl := Option.some.inj h <;> cases hnext

/-- A character that is no quote leads to brackets from no more than one place in code. -/
theorem eq_of_step {other : List Char} (hc : c ≠ '\'')
    (hfirst : step ⟨closers, .code⟩ c = some next) (hsecond : step ⟨other, .code⟩ c = some next) :
    closers = other := by
  have hclosed {closers : List Char} {next : Place}
      (h : (match closers with
        | [] => none
        | innermost :: outer =>
          if c = innermost then some (Place.mk outer .code) else none) = some next) :
      closers = c :: next.closers := by
    cases closers with
    | nil => cases h
    | cons innermost outer =>
      dsimp only at h
      split at h
      · next heq =>
        obtain rfl := Option.some.inj h
        rw [heq]
      · cases h
  simp only [step, if_neg hc] at hfirst hsecond
  cases hcloser : closer? c with
  | some closer =>
    rw [hcloser] at hfirst hsecond
    have hsame := hfirst.trans hsecond.symm
    simpa using hsame
  | none =>
    rw [hcloser] at hfirst hsecond
    dsimp only at hfirst hsecond
    split at hfirst
    · next hcloses =>
      rw [if_pos hcloses] at hsecond
      rw [hclosed hfirst, hclosed hsecond]
    · next hcloses =>
      rw [if_neg hcloses] at hsecond
      have hsame := hfirst.trans hsecond.symm
      simpa using hsame

/-- A text without quotes leads to code from code only. -/
theorem mode_of_through (hquote : '\'' ∉ text) (h : through place text = some next)
    (hnext : next.mode = .code) : place.mode = .code := by
  induction text generalizing place with
  | nil =>
    obtain rfl := Option.some.inj h
    exact hnext
  | cons c rest ih =>
    obtain ⟨hc, hrest⟩ := not_or.1 (mt List.mem_cons.2 hquote)
    obtain ⟨middle, hstep, hthrough⟩ := Option.bind_eq_some_iff.1 h
    exact mode_of_step (Ne.symm hc) hstep (ih hrest hthrough)

/-- A text without quotes leads to a place in code from no more than one place. -/
theorem eq_of_through {other : Place} (hquote : '\'' ∉ text) (hnext : next.mode = .code)
    (hfirst : through place text = some next) (hsecond : through other text = some next) :
    place = other := by
  induction text generalizing place other with
  | nil =>
    obtain rfl := Option.some.inj hfirst
    exact (Option.some.inj hsecond).symm
  | cons c rest ih =>
    have hmode := mode_of_through hquote hfirst hnext
    have hmode' := mode_of_through hquote hsecond hnext
    obtain ⟨hc, hrest⟩ := not_or.1 (mt List.mem_cons.2 hquote)
    obtain ⟨middle, hstep, hthrough⟩ := Option.bind_eq_some_iff.1 hfirst
    obtain ⟨middle', hstep', hthrough'⟩ := Option.bind_eq_some_iff.1 hsecond
    obtain rfl := ih hrest hthrough hthrough'
    obtain ⟨closers, mode⟩ := place
    obtain ⟨closers', mode'⟩ := other
    obtain rfl : mode = .code := hmode
    obtain rfl : mode' = .code := hmode'
    rw [eq_of_step (Ne.symm hc) hstep hstep']

/-- What stands before a text without quotes leads to where that text starts. -/
theorem Turns.front (h : Turns before after (first ++ second))
    (hsecond : Turns middle after second) (hquote : '\'' ∉ second) : Turns before middle first := by
  intro outer
  have hboth := h outer
  rw [through_append] at hboth
  obtain ⟨place, hplace, hthrough⟩ := Option.bind_eq_some_iff.1 hboth
  rw [hplace, eq_of_through hquote rfl hthrough (hsecond outer)]

/-- A neutral character changes nothing in code. -/
theorem step_neutral (h : isNeutral c = true) (closers : List Char) :
    step ⟨closers, .code⟩ c = some ⟨closers, .code⟩ := by
  simp only [isNeutral, Bool.and_eq_true, bne_iff_ne, Option.isNone_iff_eq_none,
    Bool.not_eq_true'] at h
  obtain ⟨⟨hquote, hopener⟩, hcloser⟩ := h
  simp only [step, if_neg hquote, hopener, hcloser, Bool.false_eq_true, if_false]

/-- Text of neutral characters is balanced. -/
theorem balanced_of_neutral (h : ∀ c ∈ text, isNeutral c = true) : Balanced text := by
  intro outer
  induction text with
  | nil => rfl
  | cons c rest ih =>
    obtain ⟨hc, hrest⟩ := List.forall_mem_cons.1 h
    rw [through, step_neutral hc]
    exact ih hrest

/-- An escaped text never leaves its quotes. -/
theorem through_escape (closers : List Char) (text : Text) :
    through ⟨closers, .quoted⟩ (Text.escape text) = some ⟨closers, .quoted⟩ := by
  induction text with
  | nil => rfl
  | cons c rest ih =>
    rw [Text.escape]
    split
    · exact ih
    · next hc =>
      obtain ⟨hslash, hquote⟩ := not_or.1 hc
      have hstep : step ⟨closers, .quoted⟩ c = some ⟨closers, .quoted⟩ := by
        simp only [step, if_neg hslash, if_neg hquote]
      rw [through, hstep]
      exact ih

/-- A quoted text is balanced, whatever stands in it. -/
theorem balanced_quote (text : Text) : Balanced (Text.quote text) := by
  intro outer
  have hopen : through ⟨outer, .code⟩ (Text.quote text) =
      through ⟨outer, .quoted⟩ (Text.escape text ++ ['\'']) := rfl
  rw [List.nil_append, hopen, through_append, through_escape]
  rfl

/-- Line ends and blanks are read as anything else that is neutral, so shifting changes
nothing. -/
theorem through_shift (place : Place) (text : Text) :
    through place (Layout.shift text) = through place text := by
  obtain ⟨closers, mode⟩ := place
  fun_induction Layout.shift text generalizing closers mode with
  | case1 => rfl
  | case2 rest ih => cases mode <;> exact ih closers _
  | case3 rest ih => cases mode <;> exact ih closers _
  | case4 c rest _ _ ih =>
    rw [through, through]
    cases step ⟨closers, mode⟩ c with
    | none => rfl
    | some next => exact ih next.closers next.mode

end Reading

section Names

variable {name : Text}

/-- Characters of names are neutral. -/
theorem isNeutral_of_named {c : Char} (h : Calls.startsName (some c) = false) :
    isNeutral c = true := by
  have hothers : ['\'', '(', '[', '\x7b', ')', ']', '\x7d'].all
      (fun d => Calls.startsName (some d)) = true := rfl
  by_contra hneutral
  have hmem : c ∈ ['\'', '(', '[', '\x7b', ')', ']', '\x7d'] := by
    by_contra hmem
    simp only [List.mem_cons, List.not_mem_nil, or_false, not_or] at hmem
    exact hneutral (by simp [isNeutral, closer?, isCloser, hmem])
  rw [List.all_eq_true.1 hothers c hmem] at h
  cases h

/-- Names are balanced. -/
theorem balanced_dotted (h : name.IsDotted) : Balanced name :=
  balanced_of_neutral fun _ hc => isNeutral_of_named (Text.startsName_of_isDotted h hc)

/-- Keys of objects are balanced. -/
theorem balanced_propertyKey (name : Text) : Balanced (Text.propertyKey name) := by
  rw [Text.propertyKey]
  split
  · next hidentifier => exact balanced_dotted (Text.isDotted_of_isIdentifier hidentifier)
  · exact balanced_quote name

end Names

/-- Texts that lead back to where they start can be laid out in rows and on lines of their
own. -/
theorem layable_turns (closers : List Char) : Dialect.Layable (Turns closers closers) where
  nil _ := rfl
  shift h outer := by rw [through_shift, h]
  line h := Turns.append (fun _ => rfl) h
  comma hfirst hsecond := hfirst.append (Turns.append (fun _ => rfl) hsecond)
  row hfirst hsecond := hfirst.append (Turns.append (fun _ => rfl) hsecond)
  colon hfirst hsecond := hfirst.append (Turns.append (fun _ => rfl) hsecond)

end Brackets

end InterfaceSchema
