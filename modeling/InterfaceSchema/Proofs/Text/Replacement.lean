import InterfaceSchema.Proofs.Text.Patterns
import InterfaceSchema.Text.Search

/-!
# Replacing patterns

A text in which a pattern does not stand is not changed by replacing the
pattern. Where it stands once, behind a text that is clear of it, only that
place changes.
-/

namespace InterfaceSchema.Text

variable {old new first text : Text}

/-- A text in which the pattern does not stand is not changed. -/
theorem replaceAll_eq_self (h : ¬old <:+: text) : replaceAll old new text = text := by
  rw [replaceAll]
  induction text with
  | nil => rfl
  | cons c rest ih =>
    have hstart : ¬old <+: c :: rest := fun hlead => h hlead.isInfix
    have hrest : ¬old <:+: rest := fun hinside => h (List.infix_cons_iff.2 (.inr hinside))
    rw [replaceFrom, if_neg (by simpa using hstart), ih hrest]

/-- The characters of an occurrence just replaced are left out. -/
theorem replaceFrom_skip (first second : Text) :
    replaceFrom old new first.length (first ++ second) = replaceFrom old new 0 second := by
  induction first with
  | nil => rfl
  | cons c rest ih => rw [List.length_cons, List.cons_append, replaceFrom, ih]

/-- The pattern is replaced at the start of a text, and then in what follows
it. -/
theorem replaceAll_lead (hne : old ≠ []) (second : Text) :
    replaceAll old new (old ++ second) = new ++ replaceAll old new second := by
  obtain ⟨c, rest, rfl⟩ := List.exists_cons_of_ne_nil hne
  have hlead : (c :: rest).isPrefixOf (c :: (rest ++ second)) = true :=
    List.isPrefixOf_iff_prefix.2 ⟨second, rfl⟩
  rw [replaceAll, List.cons_append, replaceFrom, if_pos hlead, List.length_cons,
    Nat.add_sub_cancel, replaceFrom_skip]
  rfl

/-- A character at which the pattern does not stand stays. -/
theorem replaceAll_cons {c : Char} (h : ¬old <+: c :: text) :
    replaceAll old new (c :: text) = c :: replaceAll old new text := by
  rw [replaceAll, replaceFrom, if_neg (by simpa using h)]
  rfl

/-- The pattern is replaced where it stands behind a text that is clear of
it. -/
theorem replaceAll_append (hne : old ≠ []) (hclear : Clear old first) (second : Text) :
    replaceAll old new (first ++ (old ++ second)) =
      first ++ (new ++ replaceAll old new second) := by
  induction first with
  | nil => exact replaceAll_lead hne second
  | cons c rest ih =>
    have hrest : Clear old rest := fun part hpart =>
      hclear part (hpart.trans (List.suffix_cons c rest))
    have hnone : ¬old <+: c :: (rest ++ (old ++ second)) :=
      hclear.not_lead (List.suffix_refl _) (List.cons_ne_nil _ _) _
    rw [List.cons_append, replaceAll_cons hnone, ih hrest, List.cons_append]

/-- The first occurrence of the pattern is replaced at the start of a text. -/
theorem replaceFirst_append (hne : old ≠ []) (second : Text) :
    replaceFirst old new (old ++ second) = new ++ second := by
  obtain ⟨c, rest, rfl⟩ := List.exists_cons_of_ne_nil hne
  have hlead : (c :: rest).isPrefixOf (c :: (rest ++ second)) = true :=
    List.isPrefixOf_iff_prefix.2 ⟨second, rfl⟩
  have hsplit : splitFirst? (c :: rest) ((c :: rest) ++ second) = some ([], second) := by
    rw [List.cons_append, splitFirst?, if_pos hlead]
    simp
  rw [replaceFirst, hsplit]
  rfl

/-- Nothing is replaced in a text in which the pattern does not stand. -/
theorem replaceFirst_eq_self (h : ¬old <:+: text) : replaceFirst old new text = text := by
  cases hsplit : splitFirst? old text with
  | none => rw [replaceFirst, hsplit]
  | some parts =>
    refine absurd ?_ h
    rw [eq_of_splitFirst? hsplit]
    exact ⟨parts.1, parts.2, rfl⟩

/-- A text is its start and what stands behind it. -/
theorem eq_of_afterStart? {lead found : Text} (h : afterStart? lead text = some found) :
    text = lead ++ found := by
  rw [afterStart?] at h
  split at h
  · next hlead =>
    obtain ⟨rest, rfl⟩ := List.isPrefixOf_iff_prefix.1 hlead
    rw [List.drop_left] at h
    rw [Option.some.inj h]
  · cases h

/-- A text is its end and what stands before it. -/
theorem eq_of_beforeEnd? {tail found : Text} (h : beforeEnd? tail text = some found) :
    text = found ++ tail := by
  rw [beforeEnd?] at h
  split at h
  · next htail =>
    obtain ⟨rest, rfl⟩ := List.isSuffixOf_iff_suffix.1 htail
    rw [List.length_append, Nat.add_sub_cancel, List.take_left] at h
    rw [Option.some.inj h]
  · cases h

/-- What stands between a start and an end of a text stands in it. -/
theorem infix_of_afterStart?_beforeEnd? {lead tail found : Text}
    (h : (afterStart? lead text).bind (beforeEnd? tail) = some found) : found <:+: text := by
  obtain ⟨middle, hmiddle, hfound⟩ := Option.bind_eq_some_iff.1 h
  rw [eq_of_afterStart? hmiddle, eq_of_beforeEnd? hfound, ← List.append_assoc]
  exact List.infix_append lead found tail

/-- What stands before an end of a text stands in it. -/
theorem infix_of_beforeEnd? {tail found : Text} (h : beforeEnd? tail text = some found) :
    found <:+: text := by
  rw [eq_of_beforeEnd? h]
  exact (List.prefix_append found tail).isInfix

end InterfaceSchema.Text
