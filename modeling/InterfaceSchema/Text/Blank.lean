import InterfaceSchema.Text.Basic

/-!
# Blanks and lines

Blank characters are those with the Unicode property `White_Space`. A line
ends with a line feed, together with one carriage return right before it.
-/

namespace InterfaceSchema.Text

/-- Characters with the Unicode property `White_Space`. -/
def isBlank (c : Char) : Bool :=
  let n := c.toNat
  (9 ≤ n && n ≤ 13) || n == 0x20 || n == 0x85 || n == 0xA0 || n == 0x1680 ||
    (0x2000 ≤ n && n ≤ 0x200A) || n == 0x2028 || n == 0x2029 || n == 0x202F || n == 0x205F ||
    n == 0x3000

/-- The text without blanks at its start. -/
def trimStart (text : Text) : Text := text.dropWhile isBlank

/-- The text without blanks at its end. -/
def trimEnd (text : Text) : Text := (text.reverse.dropWhile isBlank).reverse

/-- The text without blanks at either end. -/
def trim (text : Text) : Text := trimEnd (trimStart text)

/-- The text without any blank. -/
def compact (text : Text) : Text := text.filter fun c => !isBlank c

/-- The text without line feeds at its end. -/
def trimNewlines (text : Text) : Text := (text.reverse.dropWhile (· == '\n')).reverse

/-- The lines of a text. What follows the last line feed is a line only if
it is not empty. -/
def lines : Text → List Text
  | [] => []
  | '\n' :: rest => [] :: lines rest
  | '\r' :: '\n' :: rest => [] :: lines rest
  | c :: rest =>
    match lines rest with
    | [] => [[c]]
    | line :: more => (c :: line) :: more

/-- The lines of a text, each with the line feed that ends it. -/
def linesWithEnds : Text → List Text
  | [] => []
  | '\n' :: rest => ['\n'] :: linesWithEnds rest
  | c :: rest =>
    match linesWithEnds rest with
    | [] => [[c]]
    | line :: more => (c :: line) :: more

/-- The parts written one after another with `separator` between them. -/
def joinWith (separator : Text) (parts : List Text) : Text := separator.intercalate parts

/-- Nothing is written of no parts. -/
@[simp] theorem joinWith_nil (separator : Text) : joinWith separator [] = [] :=
  List.intercalate_nil

/-- A single part is written as it is. -/
@[simp] theorem joinWith_singleton (separator part : Text) : joinWith separator [part] = part :=
  List.intercalate_singleton

/-- The separator stands behind a part that is not the last one. -/
theorem joinWith_cons_cons (separator first second : Text) (rest : List Text) :
    joinWith separator (first :: second :: rest) =
      first ++ (separator ++ joinWith separator (second :: rest)) := by
  rw [joinWith, List.intercalate_cons_cons, List.append_assoc]
  rfl

/-- Parts behind parts, with the separator between them. -/
theorem joinWith_append (separator : Text) {first second : List Text} (hfirst : first ≠ [])
    (hsecond : second ≠ []) :
    joinWith separator (first ++ second) =
      joinWith separator first ++ (separator ++ joinWith separator second) := by
  induction first with
  | nil => exact absurd rfl hfirst
  | cons part rest ih =>
    cases rest with
    | nil =>
      obtain ⟨other, more, rfl⟩ := List.exists_cons_of_ne_nil hsecond
      rw [List.singleton_append, joinWith_cons_cons, joinWith_singleton]
    | cons other more =>
      have hrest := ih (List.cons_ne_nil _ _)
      rw [List.cons_append] at hrest
      rw [List.cons_append, List.cons_append, joinWith_cons_cons, joinWith_cons_cons, hrest]
      simp only [List.append_assoc]

/-- Joined parts end as the last one does, unless that is empty. -/
theorem getLast?_joinWith (separator : Text) (parts : List Text) {last : Text} (hlast : last ≠ []) :
    (joinWith separator (parts ++ [last])).getLast? = last.getLast? := by
  obtain ⟨c, hc⟩ := Option.isSome_iff_exists.1 (List.getLast?_isSome.2 hlast)
  by_cases hparts : parts = []
  · rw [hparts, List.nil_append, joinWith_singleton]
  · rw [joinWith_append separator hparts (List.cons_ne_nil _ _), joinWith_singleton,
      List.getLast?_append, List.getLast?_append, hc]
    rfl

/-- Lines with their ends are the whole text, cut. -/
theorem flatten_linesWithEnds (text : Text) : (linesWithEnds text).flatten = text := by
  induction text with
  | nil => rfl
  | cons c rest ih =>
    unfold linesWithEnds
    split
    · rename_i h; cases h
    · rename_i h; cases h; simp [ih]
    · rename_i d tail _ h
      cases h
      cases hl : linesWithEnds rest with
      | nil => rw [hl] at ih; simp at ih; simp [← ih]
      | cons line more => rw [hl] at ih; simp at ih; simp [ih]

end InterfaceSchema.Text
