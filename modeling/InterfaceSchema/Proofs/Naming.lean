import InterfaceSchema.Barrel
import Mathlib.Data.List.Infix

/-!
# Which names count as extracted

A name has a separator at every place where it can be split into a part before,
the separator, and a part behind. The scan sees fewer: what it has found it
passes over, so a separator that shares characters with one found before stays
unseen. Two separators can only share the underscore between them. The first
one is always seen, which is enough to tell whether text follows some separator.
Whether some separator also has text before it depends on the second one if the
name starts with a separator, and that one stays unseen if it overlaps the first.
-/

namespace InterfaceSchema

namespace Text

variable {pattern text before after : Text} {c : Char} {position skip found : Nat}

/-- Characters that belong to the occurrence before are passed over. -/
theorem occurrencesFrom_skip (pattern text : Text) (position skip : Nat) :
    occurrencesFrom pattern position skip text =
      occurrencesFrom pattern (position + skip) 0 (text.drop skip) := by
  induction text generalizing position skip with
  | nil => simp [occurrencesFrom]
  | cons c rest ih =>
    cases skip with
    | zero => rfl
    | succ skip =>
      rw [occurrencesFrom, ih, List.drop_succ_cons, Nat.add_assoc, Nat.add_comm 1]

/-- The scan goes on behind a character at which no occurrence starts. -/
theorem occurrencesFrom_cons (h : ¬pattern <+: c :: text) :
    occurrencesFrom pattern position 0 (c :: text) =
      occurrencesFrom pattern (position + 1) 0 text := by
  rw [occurrencesFrom, if_neg (by simpa using h)]

/-- The scan goes on behind an occurrence that starts right here. -/
theorem occurrencesFrom_lead (hne : pattern ≠ []) (position : Nat) (after : Text) :
    occurrencesFrom pattern position 0 (pattern ++ after) =
      position :: occurrencesFrom pattern (position + pattern.length) 0 after := by
  obtain ⟨c, rest, rfl⟩ := List.exists_cons_of_ne_nil hne
  have hlead : (c :: rest).isPrefixOf (c :: (rest ++ after)) = true :=
    List.isPrefixOf_iff_prefix.2 ⟨after, rfl⟩
  have hskip : rest.length + 1 - 1 = rest.length := rfl
  rw [List.cons_append, occurrencesFrom, if_pos hlead, List.length_cons, hskip,
    occurrencesFrom_skip, List.drop_left, Nat.add_assoc, Nat.add_comm 1]

/-- The pattern stands at every place that is found. -/
theorem exists_of_mem_occurrencesFrom (h : found ∈ occurrencesFrom pattern position skip text) :
    ∃ before after, text = before ++ (pattern ++ after) ∧ found = position + before.length ∧
      skip ≤ before.length := by
  induction text generalizing position skip with
  | nil => simp [occurrencesFrom] at h
  | cons c rest ih =>
    -- found behind the first character
    have hbehind {skip' : Nat} (h : found ∈ occurrencesFrom pattern (position + 1) skip' rest) :
        ∃ before after, c :: rest = before ++ (pattern ++ after) ∧
          found = position + before.length ∧ skip' + 1 ≤ before.length := by
      obtain ⟨before, after, rfl, rfl, hskip⟩ := ih h
      exact ⟨c :: before, after, rfl, by simp [Nat.add_assoc, Nat.add_comm 1], by simpa using hskip⟩
    have hany {skip' : Nat} (h : found ∈ occurrencesFrom pattern (position + 1) skip' rest) :
        ∃ before after, c :: rest = before ++ (pattern ++ after) ∧
          found = position + before.length ∧ 0 ≤ before.length := by
      obtain ⟨before, after, hsplit, hfound, -⟩ := hbehind h
      exact ⟨before, after, hsplit, hfound, Nat.zero_le _⟩
    cases skip with
    | succ skip => exact hbehind h
    | zero =>
      rw [occurrencesFrom] at h
      split at h
      · next hlead =>
        rcases List.mem_cons.1 h with rfl | h
        · obtain ⟨after, hafter⟩ := List.isPrefixOf_iff_prefix.1 hlead
          exact ⟨[], after, hafter.symm, rfl, Nat.le_refl _⟩
        · exact hany h
      · exact hany h

/-- Where the pattern stands it is found, or an occurrence before it is. -/
theorem exists_mem_occurrencesFrom (hne : pattern ≠ []) (position : Nat) (before after : Text) :
    ∃ found ∈ occurrencesFrom pattern position 0 (before ++ (pattern ++ after)),
      found ≤ position + before.length := by
  induction before generalizing position with
  | nil =>
    rw [List.nil_append, occurrencesFrom_lead hne]
    exact ⟨position, List.mem_cons_self, Nat.le_refl _⟩
  | cons c rest ih =>
    by_cases hlead : pattern <+: c :: (rest ++ (pattern ++ after))
    · obtain ⟨behind, hbehind⟩ := hlead
      rw [List.cons_append, ← hbehind, occurrencesFrom_lead hne]
      exact ⟨position, List.mem_cons_self, Nat.le_add_right _ _⟩
    · obtain ⟨found, hmem, hle⟩ := ih (position + 1)
      rw [List.cons_append, occurrencesFrom_cons hlead]
      exact ⟨found, hmem, by rw [List.length_cons]; omega⟩

end Text

namespace Naming

open Text

variable {name before after : Text}

/-- A separator without its last character. A separator right behind it overlaps
the one that starts with it. -/
def overlap : Text := separator.dropLast

/-- A separator has characters. -/
theorem separator_ne_nil : separator ≠ [] := by decide

/-- A separator that starts inside another one starts with its last
character. -/
theorem eq_overlap_of_inside (hlead : separator <+: before ++ (separator ++ after))
    (hne : before ≠ []) (hlength : before.length < separator.length) : before = overlap := by
  have hbefore : before <+: separator :=
    (List.prefix_or_prefix_of_prefix hlead (List.prefix_append _ _)).resolve_left
      fun hlong => absurd hlong.length_le (by omega)
  have hdrop : separator.drop before.length <+: separator := by
    obtain ⟨rest, hrest⟩ := hbefore
    have hinside : rest <+: separator ++ after := by
      refine (List.prefix_append_right_inj before).1 ?_
      rw [hrest]
      exact hlead
    rw [← hrest, List.drop_left, hrest]
    refine (List.prefix_or_prefix_of_prefix hinside (List.prefix_append _ _)).resolve_right
      fun hlong => ?_
    have hshort := congrArg List.length hrest
    rw [List.length_append] at hshort
    have hle := hlong.length_le
    have hpos := List.length_pos_iff.2 hne
    omega
  have hborder : ∀ length < separator.length, 0 < length →
      (separator.drop length).isPrefixOf separator = true → length = overlap.length := by decide
  have hsame := hborder before.length hlength (List.length_pos_iff.2 hne)
    (List.isPrefixOf_iff_prefix.2 hdrop)
  calc before = separator.take before.length := List.prefix_iff_eq_take.1 hbefore
    _ = separator.take overlap.length := by rw [hsame]
    _ = overlap := rfl

/-- A name counts as primary if it cannot be split at a separator with text
behind it. -/
theorem isPrimary_iff (name : Text) :
    isPrimary name = true ↔
      ¬∃ before after, after ≠ [] ∧ name = before ++ (separator ++ after) := by
  rw [isPrimary, Bool.not_eq_true', ← Bool.not_eq_true, not_iff_not, List.any_eq_true]
  constructor
  · rintro ⟨found, hfound, hbehind⟩
    obtain ⟨before, after, rfl, rfl, -⟩ := exists_of_mem_occurrencesFrom hfound
    refine ⟨before, after, ?_, rfl⟩
    rintro rfl
    simp at hbehind
  · rintro ⟨before, after, hafter, rfl⟩
    obtain ⟨found, hfound, hle⟩ := exists_mem_occurrencesFrom separator_ne_nil 0 before after
    have hpos := List.length_pos_iff.2 hafter
    refine ⟨found, hfound, decide_eq_true ?_⟩
    simp only [List.length_append]
    omega

/-- A separator behind a text is found, or one before it that has text before it
as well, unless the text is a separator without its last character. -/
theorem exists_mem_occurrences (hne : before ≠ []) (hoverlap : before ≠ overlap) (after : Text) :
    ∃ found ∈ occurrences separator (before ++ (separator ++ after)),
      0 < found ∧ found ≤ before.length := by
  have hstart {position : Nat} {text : Text} {found : Nat}
      (h : found ∈ occurrencesFrom separator position 0 text) : position ≤ found := by
    obtain ⟨front, -, -, rfl, -⟩ := exists_of_mem_occurrencesFrom h
    exact Nat.le_add_right _ _
  rw [occurrences]
  by_cases hlead : separator <+: before ++ (separator ++ after)
  · -- the first separator is over before the other one starts
    have hapart : separator.length ≤ before.length :=
      Nat.le_of_not_lt fun hlength => hoverlap (eq_overlap_of_inside hlead hne hlength)
    obtain ⟨middle, rfl⟩ :=
      List.prefix_of_prefix_length_le hlead (List.prefix_append _ _) hapart
    obtain ⟨found, hfound, hle⟩ :=
      exists_mem_occurrencesFrom separator_ne_nil (0 + separator.length) middle after
    have hpos : 0 < separator.length := List.length_pos_iff.2 separator_ne_nil
    have hfront := hstart hfound
    rw [List.append_assoc, occurrencesFrom_lead separator_ne_nil, List.length_append]
    exact ⟨found, List.mem_cons_of_mem _ hfound, by omega, by omega⟩
  · obtain ⟨c, rest, rfl⟩ := List.exists_cons_of_ne_nil hne
    obtain ⟨found, hfound, hle⟩ :=
      exists_mem_occurrencesFrom separator_ne_nil (0 + 1) rest after
    have hfront := hstart hfound
    rw [List.cons_append] at hlead ⊢
    rw [occurrencesFrom_cons hlead, List.length_cons]
    exact ⟨found, hfound, by omega, by omega⟩

/-- A separator that overlaps one at the start of the name is passed over. -/
theorem overlap_notMem_occurrences (after : Text) :
    overlap.length ∉ occurrences separator (overlap ++ (separator ++ after)) := by
  have hshared : overlap ++ (separator ++ after) =
      separator ++ (("properties_" : Text) ++ after) := rfl
  rw [occurrences, hshared, occurrencesFrom_lead separator_ne_nil, List.mem_cons, not_or]
  refine ⟨by decide, fun hfound => ?_⟩
  obtain ⟨front, -, -, hplace, -⟩ := exists_of_mem_occurrencesFrom hfound
  have hshort : overlap.length < separator.length := by decide
  omega

/-- The scan finds a separator with text before and behind it in a name that can
be split at one, unless what stands before it is a separator without its last
character: then the scan has found that one and passes over this one. -/
theorem isExtracted_iff (name : Text) :
    isExtracted name = true ↔ ∃ before after, before ≠ [] ∧ before ≠ overlap ∧ after ≠ [] ∧
      name = before ++ (separator ++ after) := by
  rw [isExtracted, List.any_eq_true]
  constructor
  · rintro ⟨found, hfound, hinside⟩
    obtain ⟨before, after, rfl, hplace, -⟩ := exists_of_mem_occurrencesFrom hfound
    rw [Nat.zero_add] at hplace
    subst hplace
    rw [Bool.and_eq_true, decide_eq_true_iff, decide_eq_true_iff] at hinside
    obtain ⟨hbefore, hafter⟩ := hinside
    refine ⟨before, after, List.length_pos_iff.1 hbefore, ?_, ?_, rfl⟩
    · rintro rfl
      exact overlap_notMem_occurrences after hfound
    · rintro rfl
      simp at hafter
  · rintro ⟨before, after, hbefore, hoverlap, hafter, rfl⟩
    obtain ⟨found, hfound, hpos, hle⟩ := exists_mem_occurrences hbefore hoverlap after
    have hbehind := List.length_pos_iff.2 hafter
    refine ⟨found, hfound, ?_⟩
    rw [Bool.and_eq_true, decide_eq_true_iff, decide_eq_true_iff]
    refine ⟨hpos, ?_⟩
    simp only [List.length_append]
    omega

/-- What the scan tells about the places where a name can be split at a separator.
No name made up for a property counts as primary, and those for parents other than
a separator without its last character count as extracted. -/
theorem classified_by_splits (name : Text) :
    (isExtracted name = true ↔ ∃ before after, before ≠ [] ∧ before ≠ overlap ∧ after ≠ [] ∧
        name = before ++ (separator ++ after)) ∧
      (isPrimary name = true ↔
        ¬∃ before after, after ≠ [] ∧ name = before ++ (separator ++ after)) ∧
      ∀ parent property, parent ≠ [] → property ≠ [] → name = extracted parent property →
        isPrimary name = false ∧ (parent ≠ overlap → isExtracted name = true) := by
  refine ⟨isExtracted_iff name, isPrimary_iff name, fun parent property hparent hproperty heq => ?_⟩
  constructor
  · rw [← Bool.not_eq_true, isPrimary_iff, not_not]
    exact ⟨parent, property, hproperty, heq⟩
  · intro hoverlap
    exact (isExtracted_iff name).2 ⟨parent, property, hparent, hoverlap, hproperty, heq⟩

/-- A name made up for a parent that ends like a separator: its two separators
overlap, and the first of them has text before it. -/
theorem classified_by_splits_overlapping :
    let parent : Text := "A_properties"
    let property : Text := "b"
    parent ≠ [] ∧ property ≠ [] ∧ parent ≠ overlap ∧
      isPrimary (extracted parent property) = false ∧
      isExtracted (extracted parent property) = true := by
  intro parent property
  have hparent : parent ≠ [] := by decide
  have hproperty : property ≠ [] := by decide
  have hoverlap : parent ≠ overlap := by decide
  obtain ⟨-, -, hmade⟩ := classified_by_splits (extracted parent property)
  obtain ⟨hprimary, hextracted⟩ := hmade parent property hparent hproperty rfl
  exact ⟨hparent, hproperty, hoverlap, hprimary, hextracted hoverlap⟩

/-- A name made up for a property need not count as extracted: the separator may
overlap one that the parent's name starts with. -/
theorem not_isExtracted_extracted :
    ¬∀ parent property : Text, parent ≠ [] → property ≠ [] →
      parent.all Barrel.isNameChar = true → property.all Barrel.isNameChar = true →
        isExtracted (extracted parent property) = true := by
  intro h
  have hmade := h "_properties" "b" (by decide) (by decide) (by decide) (by decide)
  exact absurd hmade (by decide)

end Naming

end InterfaceSchema
