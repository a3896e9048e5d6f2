import InterfaceSchema.Specifier
import Mathlib.Data.List.TakeWhile

/-!
# Completing specifiers once is enough

A specifier gets its extension right before the closing quote, which starts no
new specifier and ends none that stood there before. So the scan of completed
code finds what the scan of the code has found, with the extensions in place,
and leaves everything as it is.
-/

namespace InterfaceSchema.Specifier

/-- The dots that the path part of a specifier may start with. -/
def leadingDots : List Text := ["", ".", ".."]

/-- No dot is a quote. -/
theorem isQuote_of_mem_leadingDots {dots : Text} (h : dots ∈ leadingDots) :
    ∀ c ∈ dots, isQuote c = false := by
  have hplain : (dots.all fun c => !isQuote c) = true := by
    simp only [leadingDots, List.mem_cons, List.not_mem_nil, or_false] at h
    rcases h with rfl | rfl | rfl <;> rfl
  exact fun c hc => by simpa using List.all_eq_true.1 hplain c hc

/-- Path parts start with dots, a slash and a character that is no quote. -/
theorem startsPath_iff {text : Text} : startsPath text = true ↔
    ∃ dots ∈ leadingDots, ∃ c rest, text = dots ++ '/' :: c :: rest ∧ isQuote c = false := by
  constructor
  · intro h
    unfold startsPath at h
    split at h
    · next c rest => exact ⟨"", by simp [leadingDots], c, rest, rfl, by simpa using h⟩
    · next c rest => exact ⟨".", by simp [leadingDots], c, rest, rfl, by simpa using h⟩
    · next c rest => exact ⟨"..", by simp [leadingDots], c, rest, rfl, by simpa using h⟩
    · cases h
  · rintro ⟨dots, hdots, c, rest, rfl, hc⟩
    simp only [leadingDots, List.mem_cons, List.not_mem_nil, or_false] at hdots
    rcases hdots with rfl | rfl | rfl <;> simp [startsPath, hc]

/-- A path part that is cut off at the next quote starts as it did. -/
theorem startsPath_takeWhile {text : Text} (h : startsPath text = true) :
    startsPath (text.takeWhile fun c => !isQuote c) = true := by
  obtain ⟨dots, hdots, c, tail, rfl, hc⟩ := startsPath_iff.1 h
  refine startsPath_iff.2 ⟨dots, hdots, c, tail.takeWhile fun c => !isQuote c, ?_, hc⟩
  have hplain : ∀ d ∈ dots ++ ['/', c], (!isQuote d) = true := by
    have hdots := isQuote_of_mem_leadingDots hdots
    simpa [hc, or_imp, forall_and] using ⟨hdots, by decide⟩
  rw [show dots ++ '/' :: c :: tail = (dots ++ ['/', c]) ++ tail by simp,
    List.takeWhile_append_of_pos hplain]
  simp

/-- What a found specifier consists of. -/
structure Found.Proper (found : Found) : Prop where
  lead : ∃ blanks quote, found.lead = "from".toList ++ blanks ++ [quote] ∧ blanks ≠ [] ∧
    (∀ c ∈ blanks, Text.isBlank c = true) ∧ isQuote quote = true
  starts : startsPath found.specifier = true
  specifier : ∀ c ∈ found.specifier, isQuote c = false
  quote : isQuote found.quote = true

/-- What a found specifier is written as. -/
def Found.text (found : Found) : Text := found.lead ++ (found.specifier ++ [found.quote])

section Finding

variable {text more : Text} {found : Found}

/-- A quote is no blank. -/
theorem isBlank_of_isQuote {c : Char} (h : isQuote c = true) : Text.isBlank c = false := by
  simp only [isQuote, Bool.or_eq_true, beq_iff_eq] at h
  rcases h with rfl | rfl <;> rfl

/-- A specifier that is found is written there. -/
theorem proper_of_atFrom? (h : atFrom? text = some (found, more)) :
    found.Proper ∧ text = found.text ++ more := by
  unfold atFrom? at h
  split at h
  · next rest =>
    have hrest := List.takeWhile_append_dropWhile (p := Text.isBlank) (l := rest)
    have hblanks : ∀ c ∈ rest.takeWhile Text.isBlank, Text.isBlank c = true := fun c hc =>
      List.mem_takeWhile_imp hc
    dsimp only at h
    split at h
    · next b blanks quote inside hblank hafter =>
      split at h
      · next hstarts =>
        obtain ⟨hquote, hpath⟩ := Bool.and_eq_true_iff.1 hstarts
        have hinside := List.takeWhile_append_dropWhile (p := fun c => !isQuote c) (l := inside)
        have hplain : ∀ c ∈ inside.takeWhile fun c => !isQuote c, isQuote c = false :=
          fun c hc => by simpa using List.mem_takeWhile_imp hc
        split at h
        · next closing behind hclosing =>
          have hclose : isQuote closing = true := by
            have hhead := List.head_dropWhile_not (fun c => !isQuote c)
              (l := inside) (by rw [hclosing]; simp)
            simpa [hclosing] using hhead
          cases h
          refine ⟨⟨⟨_, quote, rfl, ?_, hblanks, hquote⟩, startsPath_takeWhile hpath, hplain,
            hclose⟩, ?_⟩
          · rw [hblank]
            simp
          · rw [hclosing] at hinside
            rw [hafter] at hrest
            calc 'f' :: 'r' :: 'o' :: 'm' :: rest
                = "from".toList ++ (rest.takeWhile Text.isBlank ++ quote :: inside) :=
                  congrArg ("from".toList ++ ·) hrest.symm
              _ = "from".toList ++ (rest.takeWhile Text.isBlank ++
                    quote :: (inside.takeWhile (fun c => !isQuote c) ++ closing :: more)) := by
                  rw [hinside]
              _ = _ := by simp [Found.text]
        · cases h
      · cases h
    · cases h
  · cases h

/-- A specifier that is written somewhere is found. -/
theorem atFrom?_text (h : found.Proper) (more : Text) :
    atFrom? (found.text ++ more) = some (found, more) := by
  obtain ⟨lead, specifier, quote⟩ := found
  obtain ⟨⟨blanks, opening, hlead, hne, hblanks, hopening⟩, hstarts, hplain, hquote⟩ := h
  dsimp only at hlead hstarts hplain hquote
  subst hlead
  have htext : Found.text ⟨"from".toList ++ blanks ++ [opening], specifier, quote⟩ ++ more =
      'f' :: 'r' :: 'o' :: 'm' :: (blanks ++ opening :: (specifier ++ quote :: more)) := by
    simp [Found.text]
  have htake : (blanks ++ opening :: (specifier ++ quote :: more)).takeWhile Text.isBlank =
      blanks := by
    rw [List.takeWhile_append_of_pos hblanks, List.takeWhile_cons_of_neg
      (by simp [isBlank_of_isQuote hopening]), List.append_nil]
  have hdrop : (blanks ++ opening :: (specifier ++ quote :: more)).dropWhile Text.isBlank =
      opening :: (specifier ++ quote :: more) := by
    rw [List.dropWhile_append_of_pos hblanks, List.dropWhile_cons_of_neg
      (by simp [isBlank_of_isQuote hopening])]
  have hinside : (specifier ++ quote :: more).takeWhile (fun c => !isQuote c) = specifier := by
    rw [List.takeWhile_append_of_pos fun c hc => by simp [hplain c hc],
      List.takeWhile_cons_of_neg (by simp [hquote]), List.append_nil]
  have hbehind : (specifier ++ quote :: more).dropWhile (fun c => !isQuote c) = quote :: more := by
    rw [List.dropWhile_append_of_pos fun c hc => by simp [hplain c hc],
      List.dropWhile_cons_of_neg (by simp [hquote])]
  have hpath : startsPath (specifier ++ quote :: more) = true := by
    obtain ⟨dots, hdots, c, rest, rfl, hc⟩ := startsPath_iff.1 hstarts
    exact startsPath_iff.2 ⟨dots, hdots, c, rest ++ quote :: more, by simp, hc⟩
  obtain ⟨b, blanks', rfl⟩ := List.exists_cons_of_ne_nil hne
  rw [htext, atFrom?, htake, hdrop]
  simp [hopening, hpath, hinside, hbehind]

/-- A specifier is found if a quote comes somewhere behind it. -/
theorem exists_atFrom?_of_quote {blanks dots inside : Text} {opening c : Char} (hne : blanks ≠ [])
    (hblanks : ∀ c ∈ blanks, Text.isBlank c = true) (hopening : isQuote opening = true)
    (hdots : dots ∈ leadingDots) (hc : isQuote c = false)
    (hquote : ∃ close ∈ inside, isQuote close = true) :
    ∃ result, atFrom? ("from".toList ++ blanks ++ [opening] ++ (dots ++ '/' :: c :: inside)) =
      some result := by
  obtain ⟨close, hmem, hcloses⟩ := hquote
  -- the specifier goes on to the first quote behind it
  have hcut := List.takeWhile_append_dropWhile (p := fun c => !isQuote c) (l := inside)
  have hends : inside.dropWhile (fun c => !isQuote c) ≠ [] := by
    rw [Ne, List.dropWhile_eq_nil_iff]
    intro hall
    simpa [hcloses] using hall close hmem
  obtain ⟨last, after, hafter⟩ := List.exists_cons_of_ne_nil hends
  have hlast : isQuote last = true := by
    have hhead := List.head_dropWhile_not (fun c => !isQuote c) (l := inside) hends
    simpa [hafter] using hhead
  have hfound : Found.Proper ⟨"from".toList ++ blanks ++ [opening],
      dots ++ '/' :: c :: inside.takeWhile fun c => !isQuote c, last⟩ := by
    refine ⟨⟨blanks, opening, rfl, hne, hblanks, hopening⟩,
      startsPath_iff.2 ⟨dots, hdots, c, _, rfl, hc⟩, fun d hd => ?_, hlast⟩
    dsimp only at hd
    rw [List.mem_append, List.mem_cons, List.mem_cons] at hd
    rcases hd with hd | rfl | rfl | hd
    · exact isQuote_of_mem_leadingDots hdots d hd
    · rfl
    · exact hc
    · simpa using List.mem_takeWhile_imp hd
  rw [hafter] at hcut
  refine ⟨(_, after), Eq.trans (congrArg atFrom? ?_) (atFrom?_text hfound after)⟩
  calc "from".toList ++ blanks ++ [opening] ++ (dots ++ '/' :: c :: inside)
      = "from".toList ++ blanks ++ [opening] ++
          (dots ++ '/' :: c :: (inside.takeWhile (fun c => !isQuote c) ++ last :: after)) := by
        rw [hcut]
    _ = _ := by simp [Found.text]

end Finding

section Completing

variable {text rest more : Text} {found : Found}

/-- A completed specifier has an extension. -/
theorem hasExtension_append_js (specifier : Text) :
    hasExtension (specifier ++ ".js".toList) = true := by
  have hreverse : (specifier ++ ".js".toList).reverse = 's' :: 'j' :: '.' :: specifier.reverse := by
    simp
  rw [hasExtension, hreverse]
  simp

/-- A completed specifier lacks nothing. -/
theorem completed_completed (specifier : Text) :
    completed (completed specifier) = completed specifier := by
  by_cases h : (isRelative specifier && !hasExtension specifier) = true
  · have hcompleted : completed specifier = specifier ++ ".js".toList := by
      rw [completed, if_pos h]
    rw [hcompleted, completed, hasExtension_append_js]
    simp
  · have hcompleted : completed specifier = specifier := by rw [completed, if_neg h]
    rw [hcompleted, hcompleted]

/-- The found specifier in completed form. -/
def Found.completed (found : Found) : Found :=
  { found with specifier := Specifier.completed found.specifier }

/-- A completed specifier is written as specifiers are. -/
theorem Found.Proper.completed (h : found.Proper) : found.completed.Proper := by
  have hcases : Specifier.completed found.specifier = found.specifier ∨
      Specifier.completed found.specifier = found.specifier ++ ".js".toList := by
    rw [Specifier.completed]
    split
    · exact .inr rfl
    · exact .inl rfl
  refine ⟨h.lead, ?_, ?_, h.quote⟩
  · obtain ⟨dots, hdots, c, rest, hspecifier, hc⟩ := startsPath_iff.1 h.starts
    dsimp only [Found.completed]
    rcases hcases with heq | heq
    · rw [heq]
      exact h.starts
    · rw [heq, hspecifier]
      exact startsPath_iff.2 ⟨dots, hdots, c, rest ++ ".js".toList, by simp, hc⟩
  · intro c hc
    dsimp only [Found.completed] at hc
    rcases hcases with heq | heq
    · exact h.specifier c (heq ▸ hc)
    · rw [heq, List.mem_append] at hc
      rcases hc with hc | hc
      · exact h.specifier c hc
      · have hplain : (".js".toList.all fun c => !isQuote c) = true := rfl
        simpa using List.all_eq_true.1 hplain c hc

/-- Code in which every specifier is complete. -/
inductive Complete : Text → Prop
  | nil : Complete []
  | skip {c : Char} {rest : Text} (h : atFrom? (c :: rest) = none) (hrest : Complete rest) :
    Complete (c :: rest)
  | found {found : Found} {more : Text} (h : found.Proper)
    (hcompleted : Specifier.completed found.specifier = found.specifier) (hmore : Complete more) :
    Complete (found.text ++ more)

/-- A specifier is written with some character first. -/
theorem Found.Proper.exists_cons (h : found.Proper) : ∃ c rest, found.text = c :: rest := by
  obtain ⟨blanks, quote, hlead, -⟩ := h.lead
  exact ⟨'f', _, by rw [Found.text, hlead]; rfl⟩

/-- A scan that has the length of a text left has the length of what follows a
specifier left behind it. -/
theorem Found.Proper.exists_succ {count : Nat} (h : found.Proper)
    (hcount : (found.text ++ more).length ≤ count) :
    ∃ count', count = count' + 1 ∧ more.length ≤ count' := by
  obtain ⟨c, rest, htext⟩ := h.exists_cons
  rw [htext] at hcount
  simp only [List.cons_append, List.length_cons, List.length_append] at hcount
  exact ⟨count - 1, by omega, by omega⟩

/-- The scan at a specifier. -/
theorem completeFrom_text (h : found.Proper) (count : Nat) (more : Text) :
    completeFrom (count + 1) (found.text ++ more) =
      found.completed.text ++ completeFrom count more := by
  have hfound := atFrom?_text h more
  obtain ⟨c, rest, htext⟩ := h.exists_cons
  rw [htext, List.cons_append] at hfound ⊢
  rw [completeFrom, hfound]
  simp [Found.text, Found.completed]

/-- Complete code is left as it is. -/
theorem Complete.completeFrom_eq (h : Complete text) (count : Nat) :
    completeFrom count text = text := by
  induction h generalizing count with
  | nil => cases count <;> rfl
  | skip hnone hrest ih =>
    cases count with
    | zero => rfl
    | succ count => rw [completeFrom, hnone]; dsimp only; rw [ih count]
  | @found found more hproper hcompleted hmore ih =>
    cases count with
    | zero => rfl
    | succ count =>
      have hsame : found.completed = found := by rw [Found.completed, hcompleted]
      rw [completeFrom_text hproper, hsame, ih count]

/-- The first step of the scan: a specifier is completed, or a character is
kept. -/
theorem completeFrom_cases {count : Nat} (h : text.length ≤ count) :
    (text = [] ∧ completeFrom count text = []) ∨
    (∃ c rest count', text = c :: rest ∧ atFrom? text = none ∧ rest.length ≤ count' ∧
      completeFrom count text = c :: completeFrom count' rest) ∨
    ∃ (found : Found) (more : Text) (count' : Nat), found.Proper ∧ text = found.text ++ more ∧
      more.length ≤ count' ∧ completeFrom count text =
        found.completed.text ++ completeFrom count' more := by
  cases text with
  | nil => exact .inl ⟨rfl, by cases count <;> rfl⟩
  | cons c rest =>
    cases hat : atFrom? (c :: rest) with
    | none =>
      obtain ⟨count, rfl⟩ := Nat.exists_eq_succ_of_ne_zero (Nat.ne_zero_of_lt h)
      refine .inr (.inl ⟨c, rest, count, rfl, rfl, Nat.le_of_succ_le_succ h, ?_⟩)
      rw [completeFrom, hat]
    | some result =>
      obtain ⟨found, more⟩ := result
      obtain ⟨hproper, htext⟩ := proper_of_atFrom? hat
      rw [htext] at h ⊢
      obtain ⟨count, rfl, hmore⟩ := hproper.exists_succ h
      exact .inr (.inr ⟨found, more, count, hproper, rfl, hmore,
        completeFrom_text hproper count more⟩)

/-- A character that starts no specifier is kept by the scan. -/
theorem completeFrom_cons {count : Nat} {c : Char} {tail : Text} (hc : c ≠ 'f')
    (hcount : text.length ≤ count) (h : completeFrom count text = c :: tail) :
    ∃ rest count', text = c :: rest ∧ rest.length ≤ count' ∧ tail = completeFrom count' rest := by
  rcases completeFrom_cases hcount with ⟨-, heq⟩ | ⟨d, rest, count', rfl, -, hlength, heq⟩ |
    ⟨found, more, count', hproper, -, -, heq⟩
  · rw [heq] at h
    cases h
  · rw [heq] at h
    obtain ⟨rfl, rfl⟩ := List.cons.inj h
    exact ⟨rest, count', rfl, hlength, rfl⟩
  · obtain ⟨blanks, quote, hlead, -⟩ := hproper.completed.lead
    rw [heq, Found.text, hlead] at h
    exact absurd (List.cons.inj h).1.symm hc

/-- The scan keeps the first character. -/
theorem head?_completeFrom {count : Nat} (hcount : text.length ≤ count) :
    (completeFrom count text).head? = text.head? := by
  rcases completeFrom_cases hcount with ⟨rfl, heq⟩ | ⟨c, rest, count', rfl, -, -, heq⟩ |
    ⟨found, more, count', hproper, rfl, -, heq⟩
  · rw [heq]
  · rw [heq]
    rfl
  · obtain ⟨blanks, quote, hlead, -⟩ := hproper.lead
    rw [heq, Found.text, Found.text, Found.completed, hlead]
    rfl

/-- Text that starts no specifier is kept by the scan. -/
theorem completeFrom_append {count : Nat} {word tail : Text} (hword : 'f' ∉ word)
    (hcount : text.length ≤ count) (h : completeFrom count text = word ++ tail) :
    ∃ rest count', text = word ++ rest ∧ rest.length ≤ count' ∧ tail = completeFrom count' rest := by
  induction word generalizing text count with
  | nil => exact ⟨text, count, rfl, hcount, h.symm⟩
  | cons c word ih =>
    obtain ⟨hc, hword⟩ := not_or.1 (mt List.mem_cons.2 hword)
    obtain ⟨middle, count', rfl, hlength, htail⟩ := completeFrom_cons (Ne.symm hc) hcount h
    obtain ⟨rest, count'', rfl, hrest, rfl⟩ := ih hword hlength htail.symm
    exact ⟨rest, count'', rfl, hrest, rfl⟩

/-- The scan makes no quotes. -/
theorem exists_quote_of_completeFrom {count : Nat} (hcount : text.length ≤ count)
    (h : ∃ c ∈ completeFrom count text, isQuote c = true) : ∃ c ∈ text, isQuote c = true := by
  induction hn : text.length using Nat.strong_induction_on generalizing text count with
  | h n ih =>
    obtain ⟨c, hc, hquote⟩ := h
    rcases completeFrom_cases hcount with ⟨-, heq⟩ | ⟨d, rest, count', rfl, -, hlength, heq⟩ |
      ⟨found, more, count', hproper, rfl, -, -⟩
    · rw [heq] at hc
      cases hc
    · rw [heq] at hc
      rcases List.mem_cons.1 hc with rfl | hc
      · exact ⟨c, List.mem_cons_self, hquote⟩
      · have hshorter : rest.length < n := by rw [← hn]; simp
        obtain ⟨e, he, hequote⟩ := ih _ hshorter hlength ⟨c, hc, hquote⟩ rfl
        exact ⟨e, List.mem_cons_of_mem _ he, hequote⟩
    · exact ⟨found.quote, by simp [Found.text], hproper.quote⟩

/-- The scan makes no specifiers: what is found behind a character was there
before. -/
theorem exists_atFrom?_of_completeFrom {count : Nat} {c : Char} (hcount : rest.length ≤ count)
    (h : atFrom? (c :: completeFrom count rest) = some (found, more)) :
    ∃ result, atFrom? (c :: rest) = some result := by
  obtain ⟨hproper, htext⟩ := proper_of_atFrom? h
  obtain ⟨lead, specifier, quote⟩ := found
  obtain ⟨⟨blanks, opening, hlead, hne, hblanks, hopening⟩, hstarts, hplain, hquote⟩ := hproper
  obtain ⟨dots, hdots, d, tail, hspecifier, hd⟩ := startsPath_iff.1 hstarts
  dsimp only at hlead hspecifier
  subst hlead hspecifier
  -- up to the slash nothing can be the start of another specifier
  have hword : 'f' ∉ "rom".toList ++ blanks ++ [opening] ++ dots ++ ['/'] := by
    have hblank : 'f' ∉ blanks := fun hmem => absurd (hblanks 'f' hmem) (by decide)
    have hopen : 'f' ≠ opening := by
      rintro rfl
      exact absurd hopening (by decide)
    have hdot : 'f' ∉ dots := by
      simp only [leadingDots, List.mem_cons, List.not_mem_nil, or_false] at hdots
      rcases hdots with rfl | rfl | rfl <;> decide
    simp [hblank, hopen, hdot]
  have hsplit : c :: completeFrom count rest = 'f' :: ("rom".toList ++ blanks ++ [opening] ++ dots ++
      ['/'] ++ d :: (tail ++ quote :: more)) := by
    rw [htext]
    simp [Found.text]
  obtain ⟨rfl, hrest⟩ := List.cons.inj hsplit
  obtain ⟨behind, count', rfl, hlength, htail⟩ := completeFrom_append hword hcount hrest
  have hhead : behind.head? = some d := by
    rw [← head?_completeFrom hlength, ← htail]
    rfl
  obtain ⟨close, hclose, hcloses⟩ := exists_quote_of_completeFrom hlength
    ⟨quote, by rw [← htail]; simp, hquote⟩
  obtain ⟨inside, hinside⟩ : ∃ inside, behind = d :: inside := by
    cases behind with
    | nil => cases hhead
    | cons e inside => exact ⟨inside, by rw [Option.some.inj hhead]⟩
  subst hinside
  have hmem : close ∈ inside := by
    rcases List.mem_cons.1 hclose with rfl | hmem
    · rw [hd] at hcloses
      cases hcloses
    · exact hmem
  obtain ⟨result, hresult⟩ := exists_atFrom?_of_quote hne hblanks hopening hdots hd
    ⟨close, hmem, hcloses⟩
  refine ⟨result, Eq.trans (congrArg atFrom? ?_) hresult⟩
  simp

/-- The scan leaves complete code behind. -/
theorem complete_completeFrom {count : Nat} (hcount : text.length ≤ count) :
    Complete (completeFrom count text) := by
  induction hn : text.length using Nat.strong_induction_on generalizing text count with
  | h n ih =>
    rcases completeFrom_cases hcount with ⟨-, heq⟩ | ⟨c, rest, count', rfl, hnone, hlength, heq⟩ |
      ⟨found, more, count', hproper, rfl, hlength, heq⟩
    · rw [heq]
      exact .nil
    · have hshorter : rest.length < n := by rw [← hn]; simp
      rw [heq]
      refine .skip ?_ (ih _ hshorter hlength rfl)
      cases hat : atFrom? (c :: completeFrom count' rest) with
      | none => rfl
      | some result =>
        obtain ⟨found, more⟩ := result
        obtain ⟨before, hbefore⟩ := exists_atFrom?_of_completeFrom hlength hat
        rw [hnone] at hbefore
        cases hbefore
    · obtain ⟨left, hleft, hmore⟩ := hproper.exists_succ hn.le
      have hshorter : more.length < n := by omega
      rw [heq]
      exact .found hproper.completed (completed_completed _) (ih _ hshorter hlength rfl)

/-- Completed code lacks nothing. -/
theorem complete?_of_complete? {code fixed : Text} (h : complete? code = some fixed) :
    complete? fixed = none := by
  rw [complete?] at h
  split at h
  · cases h
  · cases h
    rw [complete?]
    exact if_pos ((complete_completeFrom le_rfl).completeFrom_eq _)

/-- Completing the specifiers of a text again changes nothing. -/
theorem getD_complete?_getD (code : Text) :
    (complete? ((complete? code).getD code)).getD ((complete? code).getD code) =
      (complete? code).getD code := by
  cases h : complete? code with
  | none => rw [Option.getD_none, h, Option.getD_none]
  | some fixed => rw [Option.getD_some, complete?_of_complete? h, Option.getD_none]

end Completing

end InterfaceSchema.Specifier
