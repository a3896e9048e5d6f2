import InterfaceSchema.Fixup.Calls
import InterfaceSchema.Proofs.Layout
import InterfaceSchema.Text.Quoted

/-!
# Scanning arguments

What a scan of arguments goes through without coming to the end of an argument
belongs to the argument as a whole. Whether it does depends on brackets and
quotes only, so it is the same however deep the scan stands and however far
the lines are shifted.
-/

namespace InterfaceSchema.Calls

/-- Where a scan stands behind a text, if no argument ends in it and no
bracket is closed that was not opened in it. -/
def through (place : Place) : Text → Option Place
  | [] => some place
  | c :: rest =>
    if place = .code 0 ∧ (c = ')' ∨ c = ']' ∨ c = '\x7d' ∨ c = ',') then none
    else through (place.next c) rest

/-- The same place inside of more brackets. -/
def Place.deeper (levels : Nat) : Place → Place
  | .code depth => .code (depth + levels)
  | .quoted quote depth => .quoted quote (depth + levels)
  | .escaped quote depth => .escaped quote (depth + levels)

/-- A place at which a scan can stand: strings are closed by quotes. -/
def Place.Proper : Place → Prop
  | .code _ => True
  | .quoted quote _ | .escaped quote _ => quote = '\'' ∨ quote = '"' ∨ quote = '`'

section

variable {place place' : Place} {text rest piece after : Text} {more : List Text}
  {depth levels : Nat}

/-- A scan goes through one part after the other. -/
theorem through_append (place : Place) (first second : Text) :
    through place (first ++ second) = (through place first).bind (through · second) := by
  induction first generalizing place with
  | nil => rfl
  | cons c rest ih =>
    rw [List.cons_append, through, through]
    split
    · rfl
    · exact ih _

/-- What a scan goes through belongs to the first piece. -/
theorem pieces_through (h : through place text = some place')
    (hrest : pieces place' rest = some (piece :: more, after)) :
    pieces place (text ++ rest) = some ((text ++ piece) :: more, after) := by
  induction text generalizing place with
  | nil =>
    cases h
    exact hrest
  | cons c text ih =>
    rw [through] at h
    split at h
    · cases h
    · next hopen =>
      have hparen : ¬(place = .code 0 ∧ c = ')') := fun hc => hopen ⟨hc.1, .inl hc.2⟩
      have hcomma : ¬(place = .code 0 ∧ c = ',') := fun hc => hopen ⟨hc.1, by simp [hc.2]⟩
      rw [List.cons_append, pieces, if_neg hparen, if_neg hcomma, ih h]
      rfl

/-- The bracket behind a single argument ends the pieces. -/
theorem pieces_single (h : through (.code 0) text = some (.code 0)) (rest : Text) :
    pieces (.code 0) (text ++ ')' :: rest) = some ([text], rest) := by
  have hend : pieces (.code 0) (')' :: rest) = some ([[]], rest) := by
    rw [pieces, if_pos ⟨rfl, rfl⟩]
  have hpieces := pieces_through h hend
  rwa [List.append_nil] at hpieces

/-- A comma between two arguments parts the pieces. -/
theorem pieces_pair {second : Text} (hfirst : through (.code 0) text = some (.code 0))
    (hsecond : through (.code 0) second = some (.code 0)) (rest : Text) :
    pieces (.code 0) (text ++ ',' :: (second ++ ')' :: rest)) = some ([text, second], rest) := by
  have hcomma : pieces (.code 0) (',' :: (second ++ ')' :: rest)) =
      some ([[], second], rest) := by
    rw [pieces, if_neg (by simp), if_pos ⟨rfl, rfl⟩, pieces_single hsecond rest]
    rfl
  have hpieces := pieces_through hfirst hcomma
  rwa [List.append_nil] at hpieces

/-- No character is lost in pieces. -/
theorem eq_of_pieces {found : List Text} (h : pieces place text = some (found, rest)) :
    found ≠ [] ∧ text = Text.joinWith "," found ++ ')' :: rest := by
  induction text generalizing place found rest with
  | nil => cases h
  | cons c text ih =>
    rw [pieces] at h
    split at h
    · next hparen =>
      simp only [Option.some.injEq, Prod.mk.injEq] at h
      obtain ⟨rfl, rfl⟩ := h
      exact ⟨by simp, by rw [hparen.2]; rfl⟩
    split at h
    · next hcomma =>
      obtain ⟨⟨pieces', after⟩, hpieces, heq⟩ := Option.map_eq_some_iff.1 h
      simp only [Prod.mk.injEq] at heq
      obtain ⟨rfl, rfl⟩ := heq
      obtain ⟨hne, htext⟩ := ih hpieces
      obtain ⟨piece, more, rfl⟩ := List.exists_cons_of_ne_nil hne
      refine ⟨by simp, ?_⟩
      rw [htext, hcomma.2, Text.joinWith_cons_cons]
      rfl
    · obtain ⟨⟨pieces', after⟩, hpieces, heq⟩ := Option.map_eq_some_iff.1 h
      obtain ⟨hne, htext⟩ := ih hpieces
      obtain ⟨piece, more, rfl⟩ := List.exists_cons_of_ne_nil hne
      simp only [Prod.mk.injEq] at heq
      obtain ⟨rfl, rfl⟩ := heq
      refine ⟨by simp, ?_⟩
      rw [htext]
      cases more <;> simp [Text.joinWith_cons_cons]

/-- Inside of more brackets a scan goes through the same text. -/
theorem through_deeper (levels : Nat) (h : through place text = some place') :
    through (place.deeper levels) text = some (place'.deeper levels) := by
  induction text generalizing place with
  | nil =>
    cases h
    rfl
  | cons c text ih =>
    rw [through] at h
    split at h
    · cases h
    next hopen =>
    have hnext : (place.deeper levels).next c = (place.next c).deeper levels := by
      cases place with
      | escaped quote depth => rfl
      | quoted quote depth =>
        simp only [Place.deeper, Place.next]
        split
        · rfl
        · split <;> rfl
      | code depth =>
        simp only [Place.deeper, Place.next]
        split
        · rfl
        split
        · simp only [Place.code.injEq]
          omega
        split
        · next hclose =>
          have hdepth : depth ≠ 0 := by
            rintro rfl
            exact hopen ⟨rfl, by rcases hclose with rfl | rfl | rfl <;> simp⟩
          simp only [Place.code.injEq]
          omega
        · rfl
    have hopen' : ¬(place.deeper levels = .code 0 ∧
        (c = ')' ∨ c = ']' ∨ c = '\x7d' ∨ c = ',')) := by
      rintro ⟨hplace, hc⟩
      refine hopen ⟨?_, hc⟩
      cases place with
      | code depth =>
        simp only [Place.deeper, Place.code.injEq] at hplace ⊢
        omega
      | _ => cases hplace
    rw [through, if_neg hopen', hnext]
    exact ih h

/-- A character after which a scan stands as before. -/
def isPlain (c : Char) : Bool :=
  !(c == '\'' || c == '"' || c == '`' || c == '(' || c == '[' || c == '\x7b' || c == ')' ||
    c == ']' || c == '\x7d' || c == ',')

/-- A scan of code goes through plain characters. -/
theorem through_plain (h : text.all isPlain = true) (depth : Nat) :
    through (.code depth) text = some (.code depth) := by
  induction text with
  | nil => rfl
  | cons c text ih =>
    rw [List.all_cons, Bool.and_eq_true] at h
    obtain ⟨hc, hrest⟩ := h
    simp only [isPlain, Bool.not_eq_true', Bool.or_eq_false_iff, beq_eq_false_iff_ne] at hc
    obtain ⟨⟨⟨⟨⟨⟨⟨⟨⟨h1, h2⟩, h3⟩, h4⟩, h5⟩, h6⟩, h7⟩, h8⟩, h9⟩, h10⟩ := hc
    have hnext : Place.next (.code depth) c = .code depth := by
      simp [Place.next, h1, h2, h3, h4, h5, h6, h7, h8, h9]
    rw [through, if_neg (by simp [h7, h8, h9, h10]), hnext]
    exact ih hrest

/-- A scan that stands in a single-quoted string goes through escaped text. -/
theorem through_escape (text : Text) (depth : Nat) :
    through (.quoted '\'' depth) (Text.escape text) = some (.quoted '\'' depth) := by
  induction text with
  | nil => rfl
  | cons c text ih =>
    rw [Text.escape]
    split
    · rw [through, if_neg (by simp), through, if_neg (by simp [Place.next])]
      exact ih
    · next hc =>
      rw [not_or] at hc
      rw [through, if_neg (by simp), Place.next, if_neg hc.2, if_neg hc.1]
      exact ih

/-- A scan of code goes through a quoted text. -/
theorem through_quote (text : Text) (depth : Nat) :
    through (.code depth) (Text.quote text) = some (.code depth) := by
  have hopen : Place.next (.code depth) '\'' = .quoted '\'' depth := rfl
  rw [Text.quote, through, if_neg (by simp), hopen, through_append, through_escape]
  rfl

/-- A step of a scan leaves it at a place where it can stand. -/
theorem Place.Proper.next (h : place.Proper) (c : Char) : (place.next c).Proper := by
  cases place with
  | escaped quote depth => exact h
  | quoted quote depth =>
    rw [Place.next]
    split
    · trivial
    split
    · exact h
    · exact h
  | code depth =>
    rw [Place.next]
    split
    · next hc => exact hc
    split
    · trivial
    split
    · trivial
    · trivial

/-- Blanks at the start of a line change nothing for a scan. -/
theorem through_margin (h : place.Proper) (rest : Text) :
    through place ('\n' :: ' ' :: ' ' :: rest) = through place ('\n' :: rest) := by
  cases place with
  | code depth => simp [through, Place.next]
  | quoted quote depth =>
    rcases h with rfl | rfl | rfl <;> simp [through, Place.next]
  | escaped quote depth =>
    rcases h with rfl | rfl | rfl <;> simp [through, Place.next]

/-- A carriage return at the end of a line changes nothing for a scan. -/
theorem through_return (h : place.Proper) (rest : Text) :
    through place ('\r' :: '\n' :: rest) = through place ('\n' :: rest) := by
  cases place with
  | code depth => simp [through, Place.next]
  | quoted quote depth =>
    rcases h with rfl | rfl | rfl <;> simp [through, Place.next]
  | escaped quote depth =>
    rcases h with rfl | rfl | rfl <;> simp [through, Place.next]

/-- A scan goes through a text however far its lines are shifted. -/
theorem through_shift (h : place.Proper) (text : Text) :
    through place (Layout.shift text) = through place text := by
  fun_induction Layout.shift text generalizing place with
  | case1 => rfl
  | case2 rest ih =>
    rw [through_margin h, through, through]
    split
    · rfl
    · exact ih (h.next _)
  | case3 rest ih =>
    rw [through_margin h, through_return h, through, through]
    split
    · rfl
    · exact ih (h.next _)
  | case4 c rest hfeed hreturn ih =>
    rw [through, through]
    split
    · rfl
    · exact ih (h.next _)

end

end InterfaceSchema.Calls
