import InterfaceSchema.Proofs.Fixup.Scanning
import InterfaceSchema.Proofs.Text.Patterns

/-!
# Replacing calls

The bound on the depth of a replacement does not show as long as it exceeds
the length of the text. Without it, replacing calls is described by what it
does with a character, a name and a call at the front of a text. A text that
is clear of the name of the function is left alone, and so is a name that no
call follows.
-/

namespace InterfaceSchema

namespace Calls

variable {callee : Text} {change : List Text → Option Text} {before : Option Char}
  {text rest after : Text} {found : List Text}

/-- No part of a text in pieces is longer than the whole. -/
theorem length_le_joinWith {piece : Text} (h : piece ∈ found) (separator : Text) :
    piece.length ≤ (Text.joinWith separator found).length := by
  induction found with
  | nil => simp at h
  | cons first more ih =>
    cases more with
    | nil =>
      rw [List.mem_singleton] at h
      rw [h, Text.joinWith_singleton]
    | cons second others =>
      rw [Text.joinWith_cons_cons, List.length_append, List.length_append]
      rcases List.mem_cons.1 h with rfl | h
      · omega
      · have hrest := ih h
        omega

/-- An argument is a piece without the blanks at its ends. -/
theorem exists_of_mem_argumentsOf {argument : Text} (h : argument ∈ argumentsOf found) :
    ∃ piece ∈ found, argument = Text.trim piece := by
  have hmap : argument ∈ found.map Text.trim := by
    unfold argumentsOf at h
    dsimp only at h
    split at h
    · exact List.dropLast_subset _ h
    · exact h
  obtain ⟨piece, hpiece, rfl⟩ := List.mem_map.1 hmap
  exact ⟨piece, hpiece, rfl⟩

/-- What a call at the front of a text consists of is shorter than the
text. -/
theorem length_of_openCall? (h : openCall? before after = some (found, rest)) :
    (Text.joinWith "," found).length + rest.length + 2 = after.length := by
  unfold openCall? at h
  split at h
  · split at h
    · obtain ⟨-, rfl⟩ := eq_of_pieces h
      simp
      omega
    · cases h
  · cases h

/-- Replacing does not depend on the bound, once it exceeds the length of the
text. -/
theorem replaceFrom_bound (hcallee : callee ≠ []) {bound bound' : Nat} (before : Option Char)
    (h : text.length < bound) (h' : text.length < bound') :
    replaceFrom callee change bound before text = replaceFrom callee change bound' before text := by
  induction hlength : text.length using Nat.strongRecOn generalizing text bound bound' before with
  | ind length ih =>
    subst hlength
    cases text with
    | nil =>
      obtain ⟨bound, rfl⟩ : ∃ smaller, bound = smaller + 1 := ⟨bound - 1, by simp at h; omega⟩
      obtain ⟨bound', rfl⟩ : ∃ smaller, bound' = smaller + 1 := ⟨bound' - 1, by simp at h'; omega⟩
      simp [replaceFrom]
    | cons c rest =>
      rw [List.length_cons] at h h' ih
      obtain ⟨bound, rfl⟩ : ∃ smaller, bound = smaller + 1 := ⟨bound - 1, by omega⟩
      obtain ⟨bound', rfl⟩ : ∃ smaller, bound' = smaller + 1 := ⟨bound' - 1, by omega⟩
      have hagree {text : Text} (before : Option Char) (hless : text.length < rest.length + 1) :
          replaceFrom callee change bound before text =
            replaceFrom callee change bound' before text :=
        ih text.length hless before (by omega) (by omega) rfl
      have hpositive := List.length_pos_iff.2 hcallee
      rw [replaceFrom, replaceFrom]
      split
      · dsimp only
        have hdrop : ((c :: rest).drop callee.length).length < rest.length + 1 := by
          rw [List.length_drop, List.length_cons]
          omega
        split
        · next found more hopen =>
          have hparts := length_of_openCall? hopen
          have harguments : (argumentsOf found).map (replaceFrom callee change bound none) =
              (argumentsOf found).map (replaceFrom callee change bound' none) := by
            refine List.map_congr_left fun argument hargument => hagree none ?_
            obtain ⟨piece, hpiece, rfl⟩ := exists_of_mem_argumentsOf hargument
            have hpiece_le := length_le_joinWith hpiece ","
            have htrim_le := Text.length_trim_le piece
            omega
          have hinside := @hagree (Text.joinWith "," found) none (by omega)
          have hmore := @hagree more (some ')') (by omega)
          rw [harguments, hinside, hmore]
        · rw [hagree _ hdrop]
      · rw [hagree _ (Nat.lt_succ_self _)]

/-- The text with its calls replaced, behind a character. -/
def replaced (callee : Text) (change : List Text → Option Text) (before : Option Char)
    (text : Text) : Text := replaceFrom callee change (text.length + 1) before text

/-- What a call becomes: the new call for its changed arguments, or the call
with what is inside of it changed. -/
def replacedCall (callee : Text) (change : List Text → Option Text) (found : List Text) : Text :=
  (change ((argumentsOf found).map (replaced callee change none))).getD
    (callee ++ ('(' :: (replaced callee change none (Text.joinWith "," found) ++ ")")))

/-- Nothing is replaced in an empty text. -/
theorem replaced_nil : replaced callee change before [] = [] := by
  simp [replaced, replaceFrom]

/-- A character at which no name starts stays. -/
theorem replaced_cons {c : Char} (h : ¬callee <+: c :: rest) :
    replaced callee change before (c :: rest) = c :: replaced callee change (some c) rest := by
  rw [replaced, replaceFrom, if_neg (by simpa using h)]
  rfl

/-- A name that is not called stays. -/
theorem replaced_name (hcallee : callee ≠ []) (h : openCall? before after = none) :
    replaced callee change before (callee ++ after) =
      callee ++ replaced callee change callee.getLast? after := by
  obtain ⟨c, more, rfl⟩ := List.exists_cons_of_ne_nil hcallee
  have hlead : (c :: more).isPrefixOf (c :: (more ++ after)) = true :=
    List.isPrefixOf_iff_prefix.2 ⟨after, rfl⟩
  have hdrop : (c :: (more ++ after)).drop (c :: more).length = after := by simp
  rw [replaced, List.cons_append, replaceFrom, if_pos hlead]
  dsimp only
  rw [hdrop, h]
  dsimp only
  have hless : after.length < (c :: (more ++ after)).length := by
    rw [List.length_cons, List.length_append]
    omega
  rw [replaced, replaceFrom_bound hcallee _ hless (Nat.lt_succ_self after.length)]

/-- A call is replaced, and then what follows it. -/
theorem replaced_call (hcallee : callee ≠ []) (h : openCall? before after = some (found, rest)) :
    replaced callee change before (callee ++ after) =
      replacedCall callee change found ++ replaced callee change (some ')') rest := by
  obtain ⟨c, more, rfl⟩ := List.exists_cons_of_ne_nil hcallee
  have hlead : (c :: more).isPrefixOf (c :: (more ++ after)) = true :=
    List.isPrefixOf_iff_prefix.2 ⟨after, rfl⟩
  have hdrop : (c :: (more ++ after)).drop (c :: more).length = after := by simp
  have hparts := length_of_openCall? h
  have hagree {text : Text} (before : Option Char) (hless : text.length < after.length + 1) :
      replaceFrom (c :: more) change (c :: (more ++ after)).length before text =
        replaced (c :: more) change before text :=
    replaceFrom_bound hcallee before (by simp; omega) (Nat.lt_succ_self _)
  have harguments : (argumentsOf found).map
      (replaceFrom (c :: more) change (c :: (more ++ after)).length none) =
        (argumentsOf found).map (replaced (c :: more) change none) := by
    refine List.map_congr_left fun argument hargument => hagree none ?_
    obtain ⟨piece, hpiece, rfl⟩ := exists_of_mem_argumentsOf hargument
    have hpiece_le := length_le_joinWith hpiece ","
    have htrim_le := Text.length_trim_le piece
    omega
  rw [replaced, List.cons_append, replaceFrom, if_pos hlead]
  dsimp only
  rw [hdrop, h]
  dsimp only
  rw [harguments, @hagree (Text.joinWith "," found) none (by omega),
    @hagree rest (some ')') (by omega), replacedCall]
  cases change ((argumentsOf found).map (replaced (c :: more) change none)) <;> rfl

/-- A text clear of the name of the function stays. -/
theorem replaced_clear (hclear : Text.Clear callee text) :
    replaced callee change before (text ++ rest) =
      text ++ replaced callee change (text.getLast?.or before) rest := by
  induction text generalizing before with
  | nil => rfl
  | cons c more ih =>
    have hmore : Text.Clear callee more := fun part hpart =>
      hclear part (hpart.trans (List.suffix_cons c more))
    have hnone : ¬callee <+: c :: (more ++ rest) :=
      hclear.not_lead (List.suffix_refl _) (List.cons_ne_nil _ _) rest
    rw [List.cons_append, replaced_cons hnone, ih hmore, List.getLast?_cons]
    cases more.getLast? <;> rfl

/-- A name that is not called stays, whatever name it is. -/
theorem replaced_word (hcallee : callee ≠ []) (hword : '(' ∉ text)
    (hparted : Text.Parted callee rest) (hrest : rest.head? ≠ some '(') :
    replaced callee change before (text ++ rest) =
      text ++ replaced callee change (text.getLast?.or before) rest := by
  induction hlength : text.length using Nat.strongRecOn generalizing text before with
  | ind length ih =>
    subst hlength
    cases text with
    | nil => rfl
    | cons c more =>
      have hopen {text : Text} (htext : '(' ∉ text) : (text ++ rest).head? ≠ some '(' := by
        cases text with
        | nil => exact hrest
        | cons d others =>
          rintro hd
          exact htext (by rw [Option.some.inj hd]; exact List.mem_cons_self)
      by_cases hlead : callee <+: c :: (more ++ rest)
      · -- the name of the function stands inside of the word
        obtain ⟨others, hothers⟩ : callee <+: c :: more := by
          rcases List.prefix_or_prefix_of_prefix hlead (List.prefix_append (c :: more) rest) with
            h | ⟨others, hothers⟩
          · exact h
          · by_cases hnil : others = []
            · exact ⟨[], by rw [List.append_nil, ← hothers, hnil, List.append_nil]⟩
            · refine absurd ?_ (hparted others ⟨c :: more, hothers⟩ hnil)
              obtain ⟨last, hlast⟩ := hlead
              rw [← hothers, List.append_assoc] at hlast
              exact ⟨last, List.append_cancel_left hlast⟩
        have hmem : '(' ∉ others := fun h => by
          rw [← hothers] at hword
          exact hword (List.mem_append_right _ h)
        have hnone : openCall? before (others ++ rest) = none := by
          unfold openCall?
          split
          · next inside heq =>
            refine absurd ?_ (hopen hmem)
            rw [heq]
            rfl
          · rfl
        have hpositive := List.length_pos_iff.2 hcallee
        have hless : others.length < (c :: more).length := by
          rw [← hothers, List.length_append]
          omega
        rw [← hothers, List.append_assoc, replaced_name hcallee hnone,
          ih others.length hless hmem rfl, List.append_assoc, List.getLast?_append]
        cases others.getLast? <;> cases hlast : callee.getLast? with
        | none => exact absurd (List.getLast?_eq_none_iff.1 hlast) hcallee
        | some last => rfl
      · have hmem : '(' ∉ more := fun h => hword (List.mem_cons_of_mem _ h)
        rw [List.cons_append, replaced_cons hlead,
          ih more.length (Nat.lt_succ_self _) hmem rfl, List.getLast?_cons]
        cases more.getLast? <;> rfl

end Calls

end InterfaceSchema
