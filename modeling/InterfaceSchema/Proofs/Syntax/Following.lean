import InterfaceSchema.Syntax.Grammar

/-!
# Followed patterns

What can be said of a pattern that was followed, whatever the depth: the parts
of the pattern were followed as well, and the words and symbols in it stand
among the tokens. So patterns are ruled out by the tokens they start with.
-/

namespace InterfaceSchema.Grammar

variable {setting : Setting} {depth : Nat} {reach next : Reach}

/-- Over a token the reach goes to its end if the token is accepted. -/
theorem exists_of_take {accept : Token → Bool} (h : reach.take accept = some next) :
    ∃ token, reach.tokens = token :: next.tokens ∧ accept token = true ∧
      next.stop = token.stop := by
  unfold Reach.take at h
  split at h
  · cases h
  · next token rest htokens =>
    split at h
    · next haccept =>
      cases h
      exact ⟨token, htokens, haccept, rfl⟩
    · cases h

/-- Patterns are followed with some depth only. -/
theorem exists_below {pattern : Pattern} (h : follow depth setting pattern reach = some next) :
    ∃ below, depth = below + 1 := by
  cases depth with
  | zero =>
    rw [follow] at h
    cases h
  | succ below => exact ⟨below, rfl⟩

/-- A symbol is followed over a token that is the symbol. -/
theorem exists_symbol {symbol : String}
    (h : follow depth setting (.symbol symbol) reach = some next) :
    ∃ token, reach.tokens = token :: next.tokens ∧ token.isSymbol symbol = true ∧
      next.stop = token.stop := by
  obtain ⟨below, rfl⟩ := exists_below h
  rw [follow] at h
  exact exists_of_take h

/-- A word is followed over a token that is the word. -/
theorem exists_word {word : String} (h : follow depth setting (.word word) reach = some next) :
    ∃ token, reach.tokens = token :: next.tokens ∧ token.isWord word = true ∧
      next.stop = token.stop := by
  obtain ⟨below, rfl⟩ := exists_below h
  rw [follow] at h
  exact exists_of_take h

/-- Nothing is followed to where it starts. -/
theorem eq_of_follow_nothing (h : follow depth setting .nothing reach = some next) :
    next = reach := by
  obtain ⟨below, rfl⟩ := exists_below h
  rw [follow] at h
  cases h
  rfl

/-- On the same line a pattern goes on where it is. -/
theorem eq_of_follow_sameLine (h : follow depth setting .sameLine reach = some next) :
    next = reach := by
  obtain ⟨below, rfl⟩ := exists_below h
  rw [follow] at h
  split at h <;> cases h
  rfl

/-- A piece of the grammar is followed as its pattern. -/
theorem exists_of_follow_part {part : Part}
    (h : follow depth setting (.part part) reach = some next) :
    ∃ below, follow below setting part.pattern reach = some next := by
  obtain ⟨below, rfl⟩ := exists_below h
  rw [follow] at h
  exact ⟨below, h⟩

/-- One pattern is followed behind the other. -/
theorem exists_of_follow_both {first second : Pattern}
    (h : follow depth setting (.both first second) reach = some next) :
    ∃ below middle, follow below setting first reach = some middle ∧
      follow below setting second middle = some next := by
  obtain ⟨below, rfl⟩ := exists_below h
  rw [follow] at h
  obtain ⟨middle, hfirst, hsecond⟩ := Option.bind_eq_some_iff.1 h
  exact ⟨below, middle, hfirst, hsecond⟩

/-- Of two patterns one is followed. -/
theorem exists_of_follow_either {first second : Pattern}
    (h : follow depth setting (.either first second) reach = some next) :
    ∃ below, follow below setting first reach = some next ∨
      follow below setting second reach = some next := by
  obtain ⟨below, rfl⟩ := exists_below h
  rw [follow] at h
  split at h
  · next heq => exact ⟨below, .inl (heq.trans h)⟩
  · exact ⟨below, .inr h⟩

/-- A pattern that may be left out is followed, or it is left out. -/
theorem exists_of_follow_maybe {pattern : Pattern}
    (h : follow depth setting pattern.maybe reach = some next) :
    (∃ below, follow below setting pattern reach = some next) ∨ next = reach := by
  obtain ⟨below, h | h⟩ := exists_of_follow_either h
  · exact .inl ⟨below, h⟩
  · exact .inr (eq_of_follow_nothing h)

/-- A repeated pattern is followed once at least, or it is left out. -/
theorem exists_of_follow_many {pattern : Pattern}
    (h : follow depth setting (.many pattern) reach = some next) :
    (∃ below middle, follow below setting pattern reach = some middle) ∨ next = reach := by
  obtain ⟨below, rfl⟩ := exists_below h
  rw [follow] at h
  split at h
  · next middle heq => exact .inl ⟨below, middle, heq⟩
  · cases h
    exact .inr rfl

/-- What lies ahead can be followed, and nothing is gone over. -/
theorem exists_of_follow_ahead {pattern : Pattern}
    (h : follow depth setting pattern.ahead reach = some next) :
    ∃ below middle, follow below setting pattern reach = some middle := by
  obtain ⟨below, rfl⟩ := exists_below h
  rw [Pattern.ahead, follow] at h
  split at h
  · next middle heq => exact ⟨below, middle, heq⟩
  · obtain ⟨below, rfl⟩ := exists_below h
    rw [follow] at h
    cases h

end InterfaceSchema.Grammar
