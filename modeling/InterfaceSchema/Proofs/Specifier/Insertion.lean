import InterfaceSchema.Proofs.Specifier.Barrels

/-!
# Completing specifiers inserts extensions

The specifiers of a text are the matches of a pattern, from the left and without
overlap. Completing them puts an extension before the closing quote of those that
are relative and have none, and is the only text that does so.
-/

namespace InterfaceSchema.Specifier

/-- A specifier that starts in the directory of its file or in the one above. -/
def Relative (specifier : Text) : Prop :=
  "./".toList <+: specifier ∨ "../".toList <+: specifier

/-- A specifier whose last segment has a dot with something after it. -/
def Dotted (specifier : Text) : Prop :=
  ∃ front rest, specifier = front ++ '.' :: rest ∧ rest ≠ [] ∧ '/' ∉ rest

/-- Code and the code with the extensions that it lacks. No specifier starts at a
character that is skipped. -/
inductive Completes : Text → Text → Prop
  | nil : Completes [] []
  | skip {c : Char} {rest fixed : Text}
    (hnone : ∀ found more, Found.Proper found → c :: rest ≠ found.text ++ more)
    (hrest : Completes rest fixed) : Completes (c :: rest) (c :: fixed)
  | kept {found : Found} {more fixed : Text} (hfound : found.Proper)
    (h : Relative found.specifier → Dotted found.specifier) (hmore : Completes more fixed) :
    Completes (found.text ++ more) (found.text ++ fixed)
  | inserted {found : Found} {more fixed : Text} (hfound : found.Proper)
    (hrelative : Relative found.specifier) (hplain : ¬Dotted found.specifier)
    (hmore : Completes more fixed) : Completes (found.text ++ more)
      (found.lead ++ (found.specifier ++ (".js" ++ (found.quote :: fixed))))

section Specifiers

variable {specifier : Text}

/-- Relative specifiers are those that start with dots and a slash. -/
theorem isRelative_iff : isRelative specifier = true ↔ Relative specifier := by
  rw [isRelative, Bool.or_eq_true, List.isPrefixOf_iff_prefix, List.isPrefixOf_iff_prefix]
  rfl

/-- An extension is a dot in the last segment with something after it. -/
theorem hasExtension_iff : hasExtension specifier = true ↔ Dotted specifier := by
  have hcut := List.takeWhile_append_dropWhile (p := (· != '/')) (l := specifier.reverse)
  have hlast : ∀ c ∈ specifier.reverse.takeWhile (· != '/'), c ≠ '/' := fun c hc => by
    simpa using List.mem_takeWhile_imp hc
  constructor
  · intro h
    obtain ⟨before, after, hdot⟩ := List.append_of_mem (List.contains_iff_mem.1 h)
    have hne : (specifier.reverse.takeWhile (· != '/')).reverse ≠ [] := by
      intro hnil
      rw [hnil] at hdot
      simp at hdot
    have hsegment := List.dropLast_append_getLast hne
    rw [hdot] at hsegment
    refine ⟨(specifier.reverse.dropWhile (· != '/')).reverse ++ before,
      after ++ [(specifier.reverse.takeWhile (· != '/')).reverse.getLast hne], ?_, by simp, ?_⟩
    · calc specifier
          = (specifier.reverse.dropWhile (· != '/')).reverse ++
              (specifier.reverse.takeWhile (· != '/')).reverse := by
            rw [← List.reverse_append, hcut, List.reverse_reverse]
        _ = _ := by
            conv_lhs => rw [← hsegment]
            simp
    · intro hslash
      have hmem : '/' ∈ (specifier.reverse.takeWhile (· != '/')).reverse := by
        rw [← hsegment]
        simp only [List.append_assoc, List.cons_append, List.mem_append, List.mem_cons] at hslash ⊢
        exact .inr (.inr hslash)
      exact hlast '/' (List.mem_reverse.1 hmem) rfl
  · rintro ⟨front, rest, rfl, hne, hslash⟩
    have hrest : ∀ c ∈ rest.reverse ++ ['.'], (c != '/') = true := by
      intro c hc
      rcases List.mem_append.1 hc with hc | hc
      · simpa using fun heq : c = '/' => hslash (heq ▸ List.mem_reverse.1 hc)
      · rw [List.mem_singleton.1 hc]
        rfl
    have hreverse : (front ++ '.' :: rest).reverse = rest.reverse ++ ['.'] ++ front.reverse := by
      simp
    have hsegment : ((front ++ '.' :: rest).reverse.takeWhile (· != '/')).reverse =
        (front.reverse.takeWhile (· != '/')).reverse ++ '.' :: rest := by
      rw [hreverse, List.takeWhile_append_of_pos hrest]
      simp
    rw [hasExtension, hsegment, List.dropLast_append_of_ne_nil (List.cons_ne_nil _ _),
      List.dropLast_cons_of_ne_nil hne]
    simp

/-- A specifier that lacks nothing has an extension if it is relative. -/
theorem completed_eq_self_iff :
    completed specifier = specifier ↔ (Relative specifier → Dotted specifier) := by
  rw [← isRelative_iff, ← hasExtension_iff, completed]
  cases isRelative specifier <;> cases hasExtension specifier <;> simp

/-- A specifier that lacks something gets an extension. -/
theorem completed_of_not_dotted (hrelative : Relative specifier) (hplain : ¬Dotted specifier) :
    completed specifier = specifier ++ ".js" := by
  rw [← isRelative_iff] at hrelative
  rw [← hasExtension_iff, Bool.not_eq_true] at hplain
  rw [completed, hrelative, hplain]
  rfl

end Specifiers

section Inserting

variable {code text fixed : Text} {count : Nat}

/-- Nothing is found where no specifier is written. -/
theorem atFrom?_eq_none_iff : atFrom? text = none ↔
    ∀ found more, Found.Proper found → text ≠ found.text ++ more := by
  constructor
  · rintro hnone found more hproper rfl
    rw [atFrom?_text hproper] at hnone
    cases hnone
  · intro h
    cases hat : atFrom? text with
    | none => rfl
    | some result =>
      obtain ⟨hproper, htext⟩ := proper_of_atFrom? hat
      exact absurd htext (h _ _ hproper)

/-- A specifier that lacks nothing is written as it is. -/
theorem completed_eq_self {found : Found} (h : Relative found.specifier → Dotted found.specifier) :
    found.completed = found := by
  rw [Found.completed, completed_eq_self_iff.2 h]

/-- A specifier that lacks something is written with an extension before its closing
quote. -/
theorem text_completed {found : Found} (hrelative : Relative found.specifier)
    (hplain : ¬Dotted found.specifier) (more : Text) : found.completed.text ++ more =
      found.lead ++ (found.specifier ++ (".js" ++ (found.quote :: more))) := by
  simp only [Found.text, Found.completed, completed_of_not_dotted hrelative hplain,
    List.append_assoc, List.singleton_append]

/-- The scan puts in the extensions that are lacking. -/
theorem completes_completeFrom (hcount : text.length ≤ count) :
    Completes text (completeFrom count text) := by
  induction count generalizing text with
  | zero =>
    rw [List.eq_nil_of_length_eq_zero (Nat.le_zero.1 hcount)]
    exact .nil
  | succ count ih =>
    cases text with
    | nil => exact .nil
    | cons c rest =>
      cases hat : atFrom? (c :: rest) with
      | none =>
        rw [completeFrom, hat]
        exact .skip (atFrom?_eq_none_iff.1 hat) (ih (Nat.le_of_succ_le_succ hcount))
      | some result =>
        obtain ⟨found, more⟩ := result
        obtain ⟨hproper, htext⟩ := proper_of_atFrom? hat
        rw [htext] at hcount ⊢
        obtain ⟨_, hsucc, hmore⟩ := hproper.exists_succ hcount
        obtain rfl := Nat.succ.inj hsucc
        rw [completeFrom_text hproper]
        by_cases hcomplete : Relative found.specifier → Dotted found.specifier
        · rw [completed_eq_self hcomplete]
          exact .kept hproper hcomplete (ih hmore)
        · obtain ⟨hrelative, hplain⟩ := Classical.not_imp.1 hcomplete
          rw [text_completed hrelative hplain]
          exact .inserted hproper hrelative hplain (ih hmore)

/-- There is one text with the extensions that are lacking. -/
theorem Completes.completeFrom_eq (h : Completes code fixed) (hcount : code.length ≤ count) :
    completeFrom count code = fixed := by
  induction h generalizing count with
  | nil => cases count <;> rfl
  | skip hnone hrest ih =>
    obtain ⟨count, rfl⟩ := Nat.exists_eq_succ_of_ne_zero (Nat.ne_zero_of_lt hcount)
    rw [completeFrom, atFrom?_eq_none_iff.2 hnone]
    dsimp only
    rw [ih (Nat.le_of_succ_le_succ hcount)]
  | kept hfound hcomplete hmore ih =>
    obtain ⟨count, rfl, hlength⟩ := hfound.exists_succ hcount
    rw [completeFrom_text hfound, completed_eq_self hcomplete, ih hlength]
  | inserted hfound hrelative hplain hmore ih =>
    obtain ⟨count, rfl, hlength⟩ := hfound.exists_succ hcount
    rw [completeFrom_text hfound, text_completed hrelative hplain, ih hlength]

/-- Nothing is taken away or moved. -/
theorem Completes.sublist (h : Completes code fixed) : code.Sublist fixed := by
  induction h with
  | nil => exact .slnil
  | skip hnone hrest ih => exact ih.cons_cons _
  | kept hfound hcomplete hmore ih => exact ih.append_left _
  | @inserted found more fixed hfound hrelative hplain hmore ih =>
    have hbehind : (found.quote :: more).Sublist (".js".toList ++ (found.quote :: fixed)) :=
      (ih.cons_cons _).trans (List.sublist_append_right _ _)
    simpa [Found.text] using (hbehind.append_left found.specifier).append_left found.lead

/-- The relative specifiers of complete code have extensions. -/
theorem Complete.dotted (h : Complete text) :
    ∀ specifier ∈ specifiersFrom count text, Relative specifier → Dotted specifier := by
  induction h generalizing count with
  | nil => cases count <;> exact fun _ hmem => absurd hmem List.not_mem_nil
  | skip hnone hrest ih =>
    cases count with
    | zero => exact fun _ hmem => absurd hmem List.not_mem_nil
    | succ count =>
      rw [specifiersFrom, hnone]
      exact ih
  | found hproper hcompleted hmore ih =>
    cases count with
    | zero => exact fun _ hmem => absurd hmem (by simp [specifiersFrom])
    | succ count =>
      rw [specifiersFrom_text hproper]
      exact List.forall_mem_cons.2 ⟨completed_eq_self_iff.1 hcompleted, ih⟩

/-- Completed code and the code it was made from. -/
theorem complete?_eq_some_iff :
    complete? code = some fixed ↔ fixed ≠ code ∧ Completes code fixed := by
  rw [complete?]
  constructor
  · intro h
    split at h
    · cases h
    · next hne =>
      cases h
      exact ⟨hne, completes_completeFrom le_rfl⟩
  · rintro ⟨hne, hfixed⟩
    rw [hfixed.completeFrom_eq le_rfl, if_neg hne]

/-- Code is left alone if it has all the extensions. -/
theorem complete?_eq_none_iff : complete? code = none ↔ Completes code code := by
  have hcode : Completes code code ↔ completeFrom code.length code = code :=
    ⟨fun h => h.completeFrom_eq le_rfl, fun h => by
      conv_rhs => rw [← h]
      exact completes_completeFrom le_rfl⟩
  rw [hcode, complete?]
  split <;> simp_all

/-- Code is left alone exactly if it lacks no extension. Otherwise the extensions
that it lacks are inserted and nothing else changes; then every relative specifier
has one, and the completed code is left alone. -/
theorem complete?_inserts (code : Text) :
    (complete? code = none ↔ Completes code code) ∧
    ∀ fixed, complete? code = some fixed → fixed ≠ code ∧ Completes code fixed ∧
      code.Sublist fixed ∧
      (∀ specifier ∈ specifiers fixed, Relative specifier → Dotted specifier) ∧
      complete? fixed = none := by
  refine ⟨complete?_eq_none_iff, fun fixed h => ?_⟩
  obtain ⟨hne, hfixed⟩ := complete?_eq_some_iff.1 h
  have hcomplete : Complete fixed :=
    hfixed.completeFrom_eq le_rfl ▸ complete_completeFrom le_rfl
  exact ⟨hne, hfixed, hfixed.sublist, hcomplete.dotted, complete?_of_complete? h⟩

/-- The directory of a module has a dot, its file has none. -/
theorem complete?_inserts_dotted_directory :
    Completes "import a from './v1.2/a'" "import a from './v1.2/a.js'" ∧
      complete? "import a from './v1.2/a.js'" = none := by
  obtain ⟨-, hfixed, -, -, hnone⟩ :=
    (complete?_inserts "import a from './v1.2/a'").2 "import a from './v1.2/a.js'" (by decide)
  exact ⟨hfixed, hnone⟩

end Inserting

end InterfaceSchema.Specifier
