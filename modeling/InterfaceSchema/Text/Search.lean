import InterfaceSchema.Text.Basic

/-!
# Occurrences and replacement

Occurrences of a pattern are counted from the left and do not overlap: the
search goes on after the end of the occurrence just found.
-/

namespace InterfaceSchema.Text

/-- Positions, in characters, of the occurrences of `pattern`; `skip`
characters belong to the occurrence before. -/
def occurrencesFrom (pattern : Text) (position skip : Nat) : Text → List Nat
  | [] => []
  | c :: rest =>
    match skip with
    | left + 1 => occurrencesFrom pattern (position + 1) left rest
    | 0 =>
      if pattern.isPrefixOf (c :: rest) then
        position :: occurrencesFrom pattern (position + 1) (pattern.length - 1) rest
      else occurrencesFrom pattern (position + 1) 0 rest

/-- Positions, in characters, of the occurrences of a nonempty pattern. -/
def occurrences (pattern text : Text) : List Nat := occurrencesFrom pattern 0 0 text

/-- What stands before and after the first occurrence of `pattern`. -/
def splitFirst? (pattern : Text) : Text → Option (Text × Text)
  | [] => if pattern.isEmpty then some ([], []) else none
  | c :: rest =>
    if pattern.isPrefixOf (c :: rest) then some ([], (c :: rest).drop pattern.length)
    else (splitFirst? pattern rest).map fun parts => (c :: parts.1, parts.2)

/-- Every occurrence of `old` replaced; `skip` characters belong to the
occurrence just replaced. -/
def replaceFrom (old new : Text) (skip : Nat) : Text → Text
  | [] => []
  | c :: rest =>
    match skip with
    | left + 1 => replaceFrom old new left rest
    | 0 =>
      if old.isPrefixOf (c :: rest) then new ++ replaceFrom old new (old.length - 1) rest
      else c :: replaceFrom old new 0 rest

/-- Every occurrence of the nonempty `old` replaced by `new`. -/
def replaceAll (old new text : Text) : Text := replaceFrom old new 0 text

/-- The first occurrence of `old` replaced by `new`. -/
def replaceFirst (old new text : Text) : Text :=
  match splitFirst? old text with
  | some (before, after) => before ++ new ++ after
  | none => text

/-- What follows `lead`, if the text starts with it. -/
def afterStart? (lead text : Text) : Option Text :=
  if lead.isPrefixOf text then some (text.drop lead.length) else none

/-- What stands before `tail`, if the text ends with it. -/
def beforeEnd? (tail text : Text) : Option Text :=
  if tail.isSuffixOf text then some (text.take (text.length - tail.length)) else none

/-- The two sides of a found pattern, with the pattern between them, are the
text. -/
theorem eq_of_splitFirst? {pattern text before after : Text}
    (h : splitFirst? pattern text = some (before, after)) : text = before ++ pattern ++ after := by
  induction text generalizing before with
  | nil =>
    simp only [splitFirst?] at h
    split at h
    · simp_all
    · simp at h
  | cons c rest ih =>
    simp only [splitFirst?] at h
    split at h
    · next hp =>
      obtain ⟨tail, ht⟩ := List.isPrefixOf_iff_prefix.1 hp
      simp only [Option.some.injEq, Prod.mk.injEq] at h
      obtain ⟨rfl, rfl⟩ := h
      simp [← ht]
    · obtain ⟨parts, hparts, hEq⟩ := Option.map_eq_some_iff.1 h
      simp only [Prod.mk.injEq] at hEq
      obtain ⟨rfl, rfl⟩ := hEq
      simp [ih hparts]

end InterfaceSchema.Text
