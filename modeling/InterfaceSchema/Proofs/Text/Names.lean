import InterfaceSchema.Proofs.Fixup.Scanning
import InterfaceSchema.Text.Quoted

/-!
# Characters of names and numbers

The characters of a name are no blanks, and a scan of arguments stands behind
them as before. Identifiers with dots between them consist of such characters
only. So do numbers, apart from their signs.
-/

namespace InterfaceSchema

namespace Text

/-- An identifier, or several with dots between them. -/
def IsDotted (name : Text) : Prop :=
  ∃ parts : List Text, parts ≠ [] ∧ (∀ part ∈ parts, isIdentifier part = true) ∧
    name = joinWith "." parts

/-- One or more characters that names consist of. -/
def IsNamed (name : Text) : Prop := name ≠ [] ∧ ∀ c ∈ name, Calls.startsName (some c) = false

/-- Characters of the spelling of a number. -/
def isNumeral (c : Char) : Bool :=
  c.isAlphanum || c == '_' || c == '.' || c == '+' || c == '-'

/-- The code points of blanks. -/
def blankPoints : List Nat :=
  [9, 10, 11, 12, 13, 0x20, 0x85, 0xA0, 0x1680, 0x2000, 0x2001, 0x2002, 0x2003, 0x2004, 0x2005,
    0x2006, 0x2007, 0x2008, 0x2009, 0x200A, 0x2028, 0x2029, 0x202F, 0x205F, 0x3000]

/-- Whether a code point lies in none of the ranges. -/
def avoids (ranges : List (Nat × Nat)) (n : Nat) : Bool :=
  ranges.all fun range => !(Nat.ble range.1 n && Nat.ble n range.2)

/-- A blank has one of the code points of blanks. -/
theorem toNat_mem_blankPoints {c : Char} (h : isBlank c = true) : c.toNat ∈ blankPoints := by
  simp only [isBlank, Bool.or_eq_true, Bool.and_eq_true, decide_eq_true_eq, beq_iff_eq] at h
  simp only [blankPoints, List.mem_cons, List.not_mem_nil, or_false]
  omega

/-- A code point that avoids all ranges lies in none of them. -/
theorem inRanges_eq_false {ranges : Array (Nat × Nat)} {n : Nat}
    (h : avoids ranges.toList n = true) : inRanges ranges n = false := by
  rw [inRanges, ← Array.any_toList, List.any_eq_false]
  intro range hrange
  have hrange' := List.all_eq_true.1 h range hrange
  intro hwithin
  simp only [Bool.and_eq_true, decide_eq_true_eq] at hwithin
  rw [Nat.ble_eq_true_of_le hwithin.1, Nat.ble_eq_true_of_le hwithin.2] at hrange'
  cases hrange'

/-- A blank is no letter and no number. -/
theorem isAlphanumeric_eq_false_of_isBlank {c : Char} (h : isBlank c = true) :
    isAlphanumeric c = false := by
  have hascii : ∀ n ∈ blankPoints, n < 128 → (Char.ofNat n).isAlphanum = false := by decide
  have hletter : ∀ n ∈ blankPoints, avoids alphabeticRanges.toList n = true := by decide +kernel
  have hnumber : ∀ n ∈ blankPoints, avoids numericRanges.toList n = true := by decide +kernel
  have hmem := toNat_mem_blankPoints h
  rw [isAlphanumeric]
  split
  · next hlt =>
    have hc := hascii c.toNat hmem hlt
    rwa [Char.ofNat_toNat] at hc
  · rw [inRanges_eq_false (hletter _ hmem), inRanges_eq_false (hnumber _ hmem)]
    rfl

end Text

namespace Calls

variable {c : Char}

/-- A character of a name is no blank. -/
theorem isBlank_of_named (h : startsName (some c) = false) : Text.isBlank c = false := by
  cases hblank : Text.isBlank c with
  | false => rfl
  | true =>
    have hletter := Text.isAlphanumeric_eq_false_of_isBlank hblank
    have hsigns : c ≠ '_' ∧ c ≠ '$' ∧ c ≠ '.' := by
      refine ⟨?_, ?_, ?_⟩ <;> rintro rfl <;> exact absurd hblank (by decide)
    simp [startsName, hletter, hsigns] at h

/-- A character of a name is plain. -/
theorem isPlain_of_named (h : startsName (some c) = false) : isPlain c = true := by
  have hothers : ['\'', '"', '`', '(', '[', '\x7b', ')', ']', '\x7d', ','].all
      (fun d => startsName (some d)) = true := rfl
  cases hplain : isPlain c with
  | true => rfl
  | false =>
    have hmem : c ∈ ['\'', '"', '`', '(', '[', '\x7b', ')', ']', '\x7d', ','] := by
      simp only [isPlain, Bool.not_eq_false', Bool.or_eq_true, beq_iff_eq, or_assoc] at hplain
      simpa using hplain
    rw [List.all_eq_true.1 hothers c hmem] at h
    cases h

/-- The letters and digits of ASCII are characters of names. -/
theorem startsName_of_isAlphanum (h : c.isAlphanum = true) : startsName (some c) = false := by
  have hascii : c.toNat < 128 := by
    have hranges : (decide ('A'.val ≤ c.val ∧ c.val ≤ 'Z'.val) ||
        (decide ('a'.val ≤ c.val) && decide (c.val ≤ 'z'.val)) ||
        (decide ('0'.val ≤ c.val) && decide (c.val ≤ '9'.val))) = true := h
    simp only [Bool.or_eq_true, Bool.and_eq_true, decide_eq_true_eq] at hranges
    have htoNat : c.toNat = c.val.toNat := rfl
    rcases hranges with (⟨-, h⟩ | ⟨-, h⟩) | ⟨-, h⟩ <;>
    · have hle := UInt32.le_iff_toNat_le.1 h
      rw [htoNat]
      exact Nat.lt_of_le_of_lt hle (by decide)
  simp [startsName, Text.isAlphanumeric, hascii, h]

/-- A character of a number is plain and no blank. -/
theorem isPlain_of_isNumeral {c : Char} (h : Text.isNumeral c = true) :
    isPlain c = true ∧ Text.isBlank c = false := by
  simp only [Text.isNumeral, Bool.or_eq_true, beq_iff_eq] at h
  rcases h with (((hletter | rfl) | rfl) | rfl) | rfl
  · have hnamed := startsName_of_isAlphanum hletter
    exact ⟨isPlain_of_named hnamed, isBlank_of_named hnamed⟩
  all_goals decide

end Calls

namespace Text

/-- An identifier is a dotted name without dots. -/
theorem isDotted_of_isIdentifier {name : Text} (h : isIdentifier name = true) : name.IsDotted :=
  ⟨[name], by simp, by simpa using h, (joinWith_singleton "." name).symm⟩

/-- A character of a dotted name is a dot or a character of an identifier. -/
theorem startsName_of_isDotted {name : Text} (h : name.IsDotted) {c : Char} (hc : c ∈ name) :
    Calls.startsName (some c) = false := by
  obtain ⟨parts, -, hparts, rfl⟩ := h
  have hnamed {part : Text} (hpart : isIdentifier part = true) {c : Char} (hc : c ∈ part) :
      Calls.startsName (some c) = false := by
    have hletters : c = '_' ∨ c = '$' ∨ isAlphanumeric c = true := by
      cases part with
      | nil => cases hc
      | cons first rest =>
        simp only [isIdentifier, Bool.and_eq_true, Bool.or_eq_true, beq_iff_eq,
          List.all_eq_true] at hpart
        rcases List.mem_cons.1 hc with rfl | hc
        · exact (or_assoc.1 hpart.1).imp_right (Or.imp_right isAlphanumeric_of_isAlphabetic)
        · exact or_assoc.1 (hpart.2 c hc)
    rcases hletters with rfl | rfl | hletter
    · rfl
    · rfl
    · simp [Calls.startsName, hletter]
  induction parts with
  | nil => cases hc
  | cons part rest ih =>
    cases rest with
    | nil =>
      rw [joinWith_singleton] at hc
      exact hnamed (hparts part List.mem_cons_self) hc
    | cons second more =>
      have hjoin : joinWith "." (part :: second :: more) =
          part ++ ('.' :: joinWith "." (second :: more)) :=
        joinWith_cons_cons "." part second more
      rw [hjoin, List.mem_append, List.mem_cons] at hc
      rcases hc with hc | rfl | hc
      · exact hnamed (hparts part List.mem_cons_self) hc
      · rfl
      · exact ih (fun other hother => hparts other (List.mem_cons_of_mem _ hother)) hc

/-- A dotted name is not empty. -/
theorem IsDotted.ne_nil {name : Text} (h : name.IsDotted) : name ≠ [] := by
  obtain ⟨parts, hne, hparts, rfl⟩ := h
  obtain ⟨part, rest, rfl⟩ := List.exists_cons_of_ne_nil hne
  have hpart := hparts part List.mem_cons_self
  have hfront : part <+: joinWith "." (part :: rest) := by
    cases rest with
    | nil => simp
    | cons second more => simp [joinWith_cons_cons]
  rintro hnil
  rw [hnil, List.prefix_nil] at hfront
  subst hfront
  cases hpart

/-- A dotted name consists of characters of names. -/
theorem IsDotted.isNamed {name : Text} (h : name.IsDotted) : name.IsNamed :=
  ⟨h.ne_nil, fun _ hc => startsName_of_isDotted h hc⟩

end Text

end InterfaceSchema
