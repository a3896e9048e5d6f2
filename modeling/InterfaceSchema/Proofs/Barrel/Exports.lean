import InterfaceSchema.Barrel
import InterfaceSchema.Proofs.Text.Names
import InterfaceSchema.Proofs.Text.Patterns
import Mathlib.Data.List.TakeWhile

/-!
# Finding exports

A scan for exports looks for their heads: the word `export`, the kind of thing,
a name, and the sign that opens its definition. What starts every head, its
announcement, can stand nowhere else in a head. So no head is missed because
another one was found before it, and a text without announcements adds no name.
-/

namespace InterfaceSchema.Barrel

open Text

/-- One or more blanks. -/
def IsGap (text : Text) : Prop := text ≠ [] ∧ ∀ c ∈ text, isBlank c = true

/-- A name that an export can have. -/
def IsName (name : Text) : Prop := name ≠ [] ∧ ∀ c ∈ name, isNameChar c = true

/-- An export up to the sign that opens its definition, in parts. -/
structure Head where
  /-- Blanks behind the word `export`. -/
  gap : Text
  /-- What kind of thing is exported. -/
  word : Text
  /-- Blanks before the name. -/
  before : Text
  name : Text
  /-- Blanks behind the name. -/
  behind : Text
  sign : Char

namespace Head

/-- The parts of an export are what a scan takes for them. -/
structure Proper (head : Head) : Prop where
  gap : IsGap head.gap
  word : head.word ∈ exportWords
  before : IsGap head.before
  name : IsName head.name
  behind : ∀ c ∈ head.behind, isBlank c = true
  sign : head.sign = '=' ∨ head.sign = '\x7b'

/-- The parts one after another. -/
def text (head : Head) : Text :=
  "export" ++ (head.gap ++ (head.word ++ (head.before ++ (head.name ++
    (head.behind ++ [head.sign])))))

/-- The text of a head behind the word `export`. -/
theorem text_eq (head : Head) : head.text = "export".toList ++ (head.gap ++ (head.word ++
    (head.before ++ (head.name ++ (head.behind ++ [head.sign]))))) := rfl

end Head

/-- What starts every export: the word `export` and the first letter of a kind,
with blanks between them. -/
def IsAnnouncement (pattern : Text) : Prop :=
  ∃ gap c, IsGap gap ∧ c ∈ ['c', 't', 'i'] ∧ pattern = "export" ++ (gap ++ [c])

/-- Neither an announcement nor the start of one stands in the text. -/
def Silent (text : Text) : Prop := ∀ pattern, IsAnnouncement pattern → Clear pattern text

/-- No announcement stands in the text. -/
def Quiet (text : Text) : Prop := ∀ pattern, IsAnnouncement pattern → ¬pattern <:+: text

/-- No announcement that starts before the text goes on in it. -/
def Hush (text : Text) : Prop := ∀ pattern, IsAnnouncement pattern → Parted pattern text

variable {text first second rest name pattern : Text} {head : Head} {c : Char}

section Parts

/-- A name holds no blank. -/
theorem isBlank_of_isNameChar (h : isNameChar c = true) : isBlank c = false := by
  rw [isNameChar, Bool.or_eq_true, beq_iff_eq] at h
  refine (Calls.isPlain_of_isNumeral ?_).2
  rcases h with h | rfl
  · simp [isNumeral, h]
  · rfl

/-- Characters of one kind before the first of another kind are what is taken
and dropped. -/
theorem takeWhile_dropWhile_append {p : Char → Bool} (h : ∀ c ∈ first, p c = true)
    (hhead : second.head?.all (fun c => !p c) = true) :
    (first ++ second).takeWhile p = first ∧ (first ++ second).dropWhile p = second := by
  have hnone : second.takeWhile p = [] ∧ second.dropWhile p = second := by
    cases second with
    | nil => exact ⟨rfl, rfl⟩
    | cons d more =>
      have hd : p d = false := by simpa using hhead
      simp [hd]
  rw [List.takeWhile_append_of_pos h, List.dropWhile_append_of_pos h, hnone.1, hnone.2,
    List.append_nil]
  exact ⟨rfl, rfl⟩

/-- What follows blanks, and the blanks. -/
theorem afterBlanks?_eq_some : afterBlanks? text = some rest ↔
    ∃ gap, IsGap gap ∧ text = gap ++ rest ∧ rest.head?.all (fun c => !isBlank c) = true := by
  constructor
  · intro h
    cases text with
    | nil => cases h
    | cons c more =>
      rw [afterBlanks?] at h
      split at h
      · next hc =>
        obtain rfl := Option.some.inj h
        refine ⟨c :: more.takeWhile isBlank, ⟨List.cons_ne_nil _ _, ?_⟩, ?_, ?_⟩
        · rintro d (_ | ⟨_, hd⟩)
          · exact hc
          · exact List.mem_takeWhile_imp hd
        · rw [List.cons_append, List.takeWhile_append_dropWhile]
        · have hstop := List.head?_dropWhile_not isBlank more
          cases hhead : (more.dropWhile isBlank).head? with
          | none => rfl
          | some d => simpa [hhead] using hstop
      · cases h
  · rintro ⟨gap, ⟨hne, hgap⟩, rfl, hhead⟩
    obtain ⟨c, more, rfl⟩ := List.exists_cons_of_ne_nil hne
    have hmore : ∀ d ∈ more, isBlank d = true := fun d hd => hgap d (List.mem_cons_of_mem _ hd)
    rw [List.cons_append, afterBlanks?, if_pos (hgap c List.mem_cons_self),
      (takeWhile_dropWhile_append hmore hhead).2]

/-- What follows one of several words, and the word. -/
theorem exists_of_afterWord? {words : List Text} (h : afterWord? words text = some rest) :
    ∃ word ∈ words, text = word ++ rest := by
  obtain ⟨word, hfind, rfl⟩ := Option.map_eq_some_iff.1 h
  have hlead : word <+: text := by
    simpa using List.find?_some hfind
  exact ⟨word, List.mem_of_find?_eq_some hfind, (List.prefix_iff_eq_append.1 hlead).symm⟩

/-- No kind starts another one, so each is found where it stands. -/
theorem afterWord?_exportWords {word : Text} (hword : word ∈ exportWords) (rest : Text) :
    afterWord? exportWords (word ++ rest) = some rest := by
  simp only [exportWords, List.mem_cons, List.not_mem_nil, or_false] at hword
  rcases hword with rfl | rfl | rfl <;> rfl

/-- The first letter of a kind is no blank. -/
theorem isBlank_letter (h : c ∈ ['c', 't', 'i']) : isBlank c = false := by
  simp only [List.mem_cons, List.not_mem_nil, or_false] at h
  rcases h with rfl | rfl | rfl <;> rfl

/-- A kind starts with one of three letters. -/
theorem exists_of_mem_exportWords {word : Text} (hword : word ∈ exportWords) :
    ∃ c more, word = c :: more ∧ c ∈ ['c', 't', 'i'] := by
  simp only [exportWords, List.mem_cons, List.not_mem_nil, or_false] at hword
  rcases hword with rfl | rfl | rfl
  · exact ⟨'c', _, rfl, by decide⟩
  · exact ⟨'t', _, rfl, by decide⟩
  · exact ⟨'i', _, rfl, by decide⟩

end Parts

section Heads

/-- The sign behind a name belongs neither to the name nor to the blanks. -/
theorem sign_cases {sign : Char} (h : sign = '=' ∨ sign = '\x7b') :
    isBlank sign = false ∧ isNameChar sign = false ∧ sign ∉ ("export" : Text) ∧
      sign ∉ ['c', 't', 'i'] := by
  rcases h with rfl | rfl <;> decide

/-- An export is found where its head stands. -/
theorem exportAt?_text (h : head.Proper) (rest : Text) :
    exportAt? (head.text ++ rest) = some (head.name, rest) := by
  obtain ⟨hblank, hnamed, -, -⟩ := sign_cases h.sign
  obtain ⟨kind, others, hkind, hletter⟩ := exists_of_mem_exportWords h.word
  obtain ⟨letter, letters, hname⟩ := List.exists_cons_of_ne_nil h.name.1
  have hkindBlank := isBlank_letter hletter
  have hletterBlank := isBlank_of_isNameChar (h.name.2 letter (hname ▸ List.mem_cons_self))
  have hexport : afterWord? ["export".toList] (head.text ++ rest) =
      some (head.gap ++ (head.word ++ (head.before ++ (head.name ++ (head.behind ++
        (head.sign :: rest)))))) := by
    simp only [Head.text_eq, List.append_assoc]
    rfl
  have hgap : afterBlanks? (head.gap ++ (head.word ++ (head.before ++ (head.name ++
      (head.behind ++ (head.sign :: rest)))))) = some _ :=
    afterBlanks?_eq_some.2 ⟨head.gap, h.gap, rfl, by simpa [hkind] using hkindBlank⟩
  have hbefore : afterBlanks? (head.before ++ (head.name ++ (head.behind ++
      (head.sign :: rest)))) = some _ :=
    afterBlanks?_eq_some.2 ⟨head.before, h.before, rfl, by simpa [hname] using hletterBlank⟩
  have hstop : (head.behind ++ (head.sign :: rest)).head?.all (fun c => !isNameChar c) = true := by
    cases hbehind : head.behind with
    | nil => simpa using hnamed
    | cons d more =>
      have hd := h.behind d (hbehind ▸ List.mem_cons_self)
      cases hnameChar : isNameChar d with
      | false => simpa using hnameChar
      | true =>
        rw [isBlank_of_isNameChar hnameChar] at hd
        cases hd
  obtain ⟨htake, hdrop⟩ := takeWhile_dropWhile_append h.name.2 hstop
  have hopens : (head.sign :: rest).head?.all (fun c => !isBlank c) = true := by simpa using hblank
  obtain ⟨-, hend⟩ := takeWhile_dropWhile_append h.behind hopens
  have hword := afterWord?_exportWords h.word (head.before ++ (head.name ++ (head.behind ++
    (head.sign :: rest))))
  simp only [exportAt?, Option.bind_eq_bind]
  rw [hexport, Option.bind_some, hgap, Option.bind_some, hword, Option.bind_some, hbefore,
    Option.bind_some, htake, hdrop, hend, hname]
  exact if_pos h.sign

/-- Where an export is found, its head stands. -/
theorem exists_of_exportAt? (h : exportAt? text = some (name, rest)) :
    ∃ head : Head, head.Proper ∧ head.name = name ∧ text = head.text ++ rest := by
  simp only [exportAt?, Option.bind_eq_bind, Option.bind_eq_some_iff] at h
  obtain ⟨first, hexport, second, hgap, third, hword, fourth, hbefore, hname⟩ := h
  obtain ⟨export', hexport', rfl⟩ := exists_of_afterWord? hexport
  obtain rfl := List.mem_singleton.1 hexport'
  obtain ⟨gap, hgap', rfl, -⟩ := afterBlanks?_eq_some.1 hgap
  obtain ⟨word, hword', rfl⟩ := exists_of_afterWord? hword
  obtain ⟨before, hbefore', rfl, -⟩ := afterBlanks?_eq_some.1 hbefore
  split at hname
  · next letter letters sign more hletters hsign =>
    split at hname
    · next hopens =>
      simp only [Option.some.injEq, Prod.mk.injEq] at hname
      obtain ⟨rfl, rfl⟩ := hname
      refine ⟨⟨gap, word, before, letter :: letters,
        (fourth.dropWhile isNameChar).takeWhile isBlank, sign⟩,
        ⟨hgap', hword', hbefore', ⟨List.cons_ne_nil _ _, ?_⟩, ?_, hopens⟩, hletters.symm, ?_⟩
      · rw [← hletters]
        exact fun c hc => List.mem_takeWhile_imp hc
      · exact fun c hc => List.mem_takeWhile_imp hc
      · have hrest : fourth = letter :: letters ++
            ((fourth.dropWhile isNameChar).takeWhile isBlank ++ sign :: more) := by
          rw [← hletters, ← hsign, List.takeWhile_append_dropWhile,
            List.takeWhile_append_dropWhile]
        conv_lhs => rw [hrest]
        simp only [Head.text_eq, List.append_assoc, List.singleton_append]
    · cases hname
  · cases hname

/-- A head starts with its announcement. -/
theorem exists_announcement (h : head.Proper) :
    ∃ pattern, IsAnnouncement pattern ∧ pattern <+: head.text := by
  obtain ⟨c, more, hword, hc⟩ := exists_of_mem_exportWords h.word
  refine ⟨_, ⟨head.gap, c, h.gap, hc, rfl⟩, more ++ (head.before ++ (head.name ++
    (head.behind ++ [head.sign]))), ?_⟩
  simp only [Head.text_eq, hword, List.append_assoc, List.cons_append, List.nil_append]

/-- Without an announcement no export is found. -/
theorem exportAt?_eq_none (h : ∀ pattern, IsAnnouncement pattern → ¬pattern <+: text) :
    exportAt? text = none := by
  cases hfound : exportAt? text with
  | none => rfl
  | some found =>
    obtain ⟨head, hproper, -, htext⟩ := exists_of_exportAt? hfound
    obtain ⟨pattern, hpattern, hlead⟩ := exists_announcement hproper
    exact absurd (htext ▸ hlead.trans (List.prefix_append _ _)) (h pattern hpattern)

end Heads

section Silence

/-- What starts with the word `export` stands and starts only where the word
does. -/
theorem silent_of_clear (h : Clear "export" text) : Silent text := by
  rintro pattern ⟨gap, c, -, -, rfl⟩ part hpart hne
  have hfront : "export".toList <+: "export".toList ++ (gap ++ [c]) := List.prefix_append _ _
  obtain ⟨hstands, hstarts⟩ := h part hpart hne
  refine ⟨fun hlead => hstands (hfront.trans hlead), fun hlead => ?_⟩
  rcases List.prefix_or_prefix_of_prefix hlead hfront with hlead | hlead
  · exact hstarts hlead
  · exact hstands hlead

/-- A text without the letter that announcements start with is silent. -/
theorem silent_of_not_mem (h : 'e' ∉ text) : Silent text := by
  rintro pattern ⟨gap, c, -, -, rfl⟩ part hpart hne
  obtain ⟨d, more, rfl⟩ := List.exists_cons_of_ne_nil hne
  have hd : d ≠ 'e' := by
    rintro rfl
    exact h (hpart.subset List.mem_cons_self)
  exact ⟨fun hlead => hd (List.cons_prefix_cons.1 hlead).1.symm,
    fun hlead => hd (List.cons_prefix_cons.1 hlead).1⟩

/-- Two silent texts are silent one after the other. -/
theorem Silent.append (hfirst : Silent first) (hsecond : Silent second) :
    Silent (first ++ second) := fun pattern hpattern =>
  (hfirst pattern hpattern).append (hsecond pattern hpattern)

/-- Nothing in a text without the word `export` is announced. -/
theorem quiet_of_lacks (h : ¬"export".toList <:+: text) : Quiet text := by
  rintro pattern ⟨gap, c, -, -, rfl⟩ hinside
  exact h ((List.prefix_append _ _).isInfix.trans hinside)

/-- Nothing in a text without blanks is announced. -/
theorem quiet_of_no_blank (h : ∀ c ∈ text, isBlank c = false) : Quiet text := by
  rintro pattern ⟨gap, c, ⟨hne, hgap⟩, -, rfl⟩ hinside
  obtain ⟨d, more, rfl⟩ := List.exists_cons_of_ne_nil hne
  have hd : d ∈ text := hinside.subset (by simp)
  have hblank := hgap d List.mem_cons_self
  rw [h d hd] at hblank
  cases hblank

/-- A name announces nothing. -/
theorem IsName.quiet (h : IsName name) : Quiet name :=
  quiet_of_no_blank fun c hc => isBlank_of_isNameChar (h.2 c hc)

/-- A part of a quiet text is quiet. -/
theorem Quiet.part (h : Quiet text) (hpart : first <:+: text) : Quiet first :=
  fun pattern hpattern hinside => h pattern hpattern (hinside.trans hpart)

/-- A quiet text is silent if its last character stands in no announcement. -/
theorem Quiet.silent (h : Quiet text) (hlast : text.getLast? = some c) (hblank : isBlank c = false)
    (hexport : c ∉ ("export" : Text)) (hkind : c ∉ ['c', 't', 'i']) : Silent text := by
  intro pattern hpattern
  have hlacks := h pattern hpattern
  obtain ⟨gap, letter, ⟨-, hgap⟩, hletter, rfl⟩ := hpattern
  refine clear_of_last hlacks hlast ?_
  rw [List.mem_append, List.mem_append, List.mem_singleton]
  rintro (hmem | hmem | rfl)
  · exact hexport hmem
  · rw [hgap _ hmem] at hblank
    cases hblank
  · exact hkind hletter

/-- Quiet texts are quiet one after the other, if the second is hushed. -/
theorem Quiet.append (hfirst : Quiet first) (hsecond : Quiet second) (hush : Hush second) :
    Quiet (first ++ second) := fun pattern hpattern =>
  lacks_append (hfirst pattern hpattern) (hsecond pattern hpattern) (hush pattern hpattern)

/-- A quiet text is quiet behind a silent one. -/
theorem Silent.quiet_append (hfirst : Silent first) (hsecond : Quiet second) :
    Quiet (first ++ second) := fun pattern hpattern =>
  (hfirst pattern hpattern).lacks_append (hsecond pattern hpattern)

/-- What goes on after blanks in an announcement is more blanks and a kind. -/
theorem suffix_of_announcement {gap part : Text} (hhead : part.head?.all (fun c =>
    !("export" : Text).contains c) = true) (hne : part ≠ [])
    (hpart : part <:+ "export" ++ (gap ++ [c])) :
    ∃ blanks, part = blanks ++ [c] ∧ blanks <:+ gap := by
  obtain ⟨d, more, rfl⟩ := List.exists_cons_of_ne_nil hne
  have hd : d ∉ "export".toList := by simpa using hhead
  obtain ⟨before, hbefore⟩ := hpart
  have hbehind : d :: more <:+ gap ++ [c] := by
    rcases List.append_eq_append_iff.1 hbefore with ⟨front, hfront, hmore⟩ | ⟨middle, -, hmiddle⟩
    · cases front with
      | nil => exact hmore ▸ List.suffix_refl _
      | cons e others =>
        obtain ⟨rfl, -⟩ := List.cons.inj hmore
        exact absurd (hfront ▸ List.mem_append_right _ List.mem_cons_self) hd
    · exact hmiddle ▸ List.suffix_append _ _
  rcases List.suffix_concat_iff.1 hbehind with h | h
  · cases h
  · exact h

/-- No announcement goes on where no letter of `export` stands and no kind
starts behind blanks. -/
theorem hush_of_head (hfirst : text.head?.all (fun c => !("export" : Text).contains c) = true)
    (hkind : (text.dropWhile isBlank).head?.all
      (fun c => !(['c', 't', 'i'] : Text).contains c) = true) :
    Hush text := by
  rintro pattern ⟨gap, c, ⟨-, hgap⟩, hc, rfl⟩ part hpart hne ⟨after, rfl⟩
  have hhead : part.head?.all (fun c => !("export" : Text).contains c) = true := by
    obtain ⟨d, more, rfl⟩ := List.exists_cons_of_ne_nil hne
    exact hfirst
  obtain ⟨blanks, rfl, hblanks⟩ := suffix_of_announcement hhead hne hpart
  have hletter := isBlank_letter hc
  have hdrop : (blanks ++ [c] ++ after).dropWhile isBlank = c :: after := by
    rw [List.append_assoc, List.dropWhile_append_of_pos fun d hd => hgap d (hblanks.subset hd)]
    simp [hletter]
  rw [hdrop, List.head?_cons, Option.all_some, Bool.not_eq_true', ← Bool.not_eq_true,
    List.contains_iff_mem] at hkind
  exact hkind hc

/-- Whether no announcement goes on in a text that starts with a fixed one. -/
def isHush (fixed : Text) : Bool :=
  fixed.head?.any (fun c => !("export" : Text).contains c) &&
    (fixed.dropWhile isBlank).head?.any (fun c => !(['c', 't', 'i'] : Text).contains c)

/-- No announcement goes on in a text that starts with a fixed one for which
this is decided. -/
theorem hush_of_isHush (h : isHush first = true) (second : Text) : Hush (first ++ second) := by
  obtain ⟨hfirst, hkind⟩ := Bool.and_eq_true_iff.1 h
  obtain ⟨c, hc, hletter⟩ := (Option.any_eq_true _ _).1 hfirst
  obtain ⟨d, hd, hother⟩ := (Option.any_eq_true _ _).1 hkind
  refine hush_of_head ?_ ?_
  · rw [List.head?_append, hc]
    exact hletter
  · rw [List.dropWhile_append, if_neg, List.head?_append, hd]
    · exact hother
    · rw [List.isEmpty_iff]
      intro hnil
      rw [hnil] at hd
      cases hd

/-- Shifting lines changes blanks between words only. -/
theorem exists_of_prefix_shift {gap : Text} (hgap : ∀ d ∈ gap, isBlank d = true)
    (hc : isBlank c = false) (h : gap ++ [c] <+: Layout.shift text) :
    ∃ gap', (∀ d ∈ gap', isBlank d = true) ∧ (gap ≠ [] → gap' ≠ []) ∧ gap' ++ [c] <+: text := by
  have hline {gap rest : Text} (hgap : ∀ d ∈ gap, isBlank d = true)
      (h : gap ++ [c] <+: '\n' :: ' ' :: ' ' :: rest) :
      ∃ more, (∀ d ∈ more, isBlank d = true) ∧ more ++ [c] <+: rest := by
    have hskip {d : Char} {gap rest : Text} (hd : isBlank d = true)
        (hgap : ∀ d ∈ gap, isBlank d = true) (h : gap ++ [c] <+: d :: rest) :
        ∃ more, (∀ d ∈ more, isBlank d = true) ∧ more ++ [c] <+: rest := by
      cases gap with
      | nil =>
        obtain ⟨rfl, -⟩ := List.cons_prefix_cons.1 h
        rw [hd] at hc
        cases hc
      | cons e more =>
        exact ⟨more, fun d hd => hgap d (List.mem_cons_of_mem _ hd), (List.cons_prefix_cons.1 h).2⟩
    obtain ⟨first, hfirst, h⟩ := hskip rfl hgap h
    obtain ⟨second, hsecond, h⟩ := hskip rfl hfirst h
    exact hskip rfl hsecond h
  fun_induction Layout.shift text generalizing gap with
  | case1 => exact absurd (List.prefix_nil.1 h) (by simp)
  | case2 rest ih =>
    obtain ⟨more, hmore, h⟩ := hline hgap h
    obtain ⟨gap', hgap', -, h⟩ := ih hmore h
    refine ⟨'\n' :: gap', ?_, fun _ => List.cons_ne_nil _ _, List.cons_prefix_cons.2 ⟨rfl, h⟩⟩
    exact List.forall_mem_cons.2 ⟨rfl, hgap'⟩
  | case3 rest ih =>
    obtain ⟨more, hmore, h⟩ := hline hgap h
    obtain ⟨gap', hgap', -, h⟩ := ih hmore h
    refine ⟨'\r' :: '\n' :: gap', ?_, fun _ => List.cons_ne_nil _ _,
      List.cons_prefix_cons.2 ⟨rfl, List.cons_prefix_cons.2 ⟨rfl, h⟩⟩⟩
    exact List.forall_mem_cons.2 ⟨rfl, List.forall_mem_cons.2 ⟨rfl, hgap'⟩⟩
  | case4 d rest hfeed hreturn ih =>
    cases gap with
    | nil =>
      obtain ⟨rfl, -⟩ := List.cons_prefix_cons.1 h
      exact ⟨[], by simp, by simp, List.cons_prefix_cons.2 ⟨rfl, List.nil_prefix⟩⟩
    | cons e more =>
      obtain ⟨rfl, hmore⟩ := List.cons_prefix_cons.1 h
      obtain ⟨gap', hgap', -, hgap''⟩ := ih (fun d hd => hgap d (List.mem_cons_of_mem _ hd)) hmore
      refine ⟨e :: gap', ?_, fun _ => List.cons_ne_nil _ _, List.cons_prefix_cons.2 ⟨rfl, hgap''⟩⟩
      exact List.forall_mem_cons.2 ⟨hgap e List.mem_cons_self, hgap'⟩

/-- A word without line feeds at the front of a text whose lines are shifted is
the front of the text. -/
theorem exists_of_word_prefix_shift {word more : Text} (hfeed : '\n' ∉ word)
    (h : word ++ more <+: Layout.shift text) :
    ∃ rest, text = word ++ rest ∧ more <+: Layout.shift rest := by
  induction word generalizing text with
  | nil => exact ⟨text, rfl, h⟩
  | cons c word ih =>
    rw [List.mem_cons, not_or] at hfeed
    cases text using Layout.shift.fun_cases with
    | case1 => exact absurd (List.prefix_nil.1 h) (by simp)
    | case2 rest =>
      rw [Layout.shift] at h
      exact absurd (List.cons_prefix_cons.1 h).1.symm hfeed.1
    | case3 rest =>
      rw [Layout.shift] at h
      exact absurd (List.cons_prefix_cons.1 h).1.symm hfeed.1
    | case4 d rest hline hreturn =>
      rw [Layout.shift.eq_4 d rest hline hreturn] at h
      obtain ⟨rfl, hmore⟩ := List.cons_prefix_cons.1 h
      obtain ⟨others, rfl, hothers⟩ := ih hfeed.2 hmore
      exact ⟨others, rfl, hothers⟩

/-- An announcement at the front of a text whose lines are shifted was one
before. -/
theorem exists_announcement_of_shift (hpattern : IsAnnouncement pattern)
    (h : pattern <+: Layout.shift text) :
    ∃ pattern', IsAnnouncement pattern' ∧ pattern' <+: text := by
  obtain ⟨gap, c, ⟨hne, hgap⟩, hc, rfl⟩ := hpattern
  obtain ⟨rest, rfl, hrest⟩ := exists_of_word_prefix_shift (by decide) h
  obtain ⟨gap', hgap', hne', hlead⟩ := exists_of_prefix_shift hgap (isBlank_letter hc) hrest
  exact ⟨_, ⟨gap', c, ⟨hne' hne, hgap'⟩, hc, rfl⟩, (List.prefix_append_right_inj _).2 hlead⟩

/-- Nothing is announced in a text for its lines being shifted. -/
theorem Quiet.shift (h : Quiet text) : Quiet (Layout.shift text) := by
  intro pattern hpattern
  have hfront {d : Char} {text : Text} (hd : d ≠ 'e') : ¬pattern <+: d :: text := by
    obtain ⟨gap, c, -, -, rfl⟩ := hpattern
    exact fun hlead => hd (List.cons_prefix_cons.1 hlead).1.symm
  have hline {text : Text} (htext : ¬pattern <:+: text) :
      ¬pattern <:+: '\n' :: ' ' :: ' ' :: text := by
    intro hinside
    rcases List.infix_cons_iff.1 hinside with hlead | hinside
    · exact hfront (by decide) hlead
    rcases List.infix_cons_iff.1 hinside with hlead | hinside
    · exact hfront (by decide) hlead
    rcases List.infix_cons_iff.1 hinside with hlead | hinside
    · exact hfront (by decide) hlead
    · exact htext hinside
  fun_induction Layout.shift text with
  | case1 => exact h pattern hpattern
  | case2 rest ih => exact hline (ih (h.part (List.suffix_cons _ _).isInfix))
  | case3 rest ih => exact hline (ih (h.part (List.suffix_append ['\r', '\n'] rest).isInfix))
  | case4 c rest hfeed hreturn ih =>
    intro hinside
    rcases List.infix_cons_iff.1 hinside with hlead | hinside
    · rw [← Layout.shift.eq_4 c rest hfeed hreturn] at hlead
      obtain ⟨pattern', hpattern', hlead'⟩ := exists_announcement_of_shift hpattern hlead
      exact h pattern' hpattern' hlead'.isInfix
    · exact ih (h.part (List.suffix_cons c rest).isInfix) hinside

end Silence

section Scan

variable {count : Nat}

/-- The names of all exports in a text, one after another. -/
def allExports (text : Text) : List Text := exportsFrom text.length text

/-- What follows an export is shorter than the text. -/
theorem length_of_exportAt? (h : exportAt? text = some (name, rest)) :
    rest.length < text.length := by
  obtain ⟨head, -, -, rfl⟩ := exists_of_exportAt? h
  simp only [Head.text_eq, List.length_append, List.length_singleton]
  omega

/-- A scan is bounded by the length of the text. -/
theorem exportsFrom_bound (h : text.length ≤ count) : exportsFrom count text = allExports text := by
  have hsame {count count' : Nat} {text : Text} (h : text.length ≤ count)
      (h' : text.length ≤ count') : exportsFrom count text = exportsFrom count' text := by
    induction count generalizing count' text with
    | zero =>
      obtain rfl := List.length_eq_zero_iff.1 (Nat.le_zero.1 h)
      cases count' <;> rfl
    | succ count ih =>
      cases text with
      | nil => cases count' <;> rfl
      | cons c rest =>
        have hne : count' ≠ 0 := by
          rintro rfl
          simp at h'
        obtain ⟨count', rfl⟩ := Nat.exists_eq_add_one_of_ne_zero hne
        rw [List.length_cons, Nat.add_le_add_iff_right] at h h'
        rw [exportsFrom, exportsFrom]
        split
        · next name more hfound =>
          have hless := length_of_exportAt? hfound
          rw [List.length_cons] at hless
          have hmore : more.length ≤ count ∧ more.length ≤ count' := by omega
          rw [ih hmore.1 hmore.2]
        · exact ih h h'
  exact hsame h (Nat.le_refl _)

/-- The scan goes on behind a character at which no export starts. -/
theorem allExports_cons (h : exportAt? (c :: rest) = none) :
    allExports (c :: rest) = allExports rest := by
  rw [allExports, List.length_cons, exportsFrom, h]
  rfl

/-- The scan goes on behind an export that starts right here. -/
theorem allExports_of_exportAt? (h : exportAt? text = some (name, rest)) :
    allExports text = name :: allExports rest := by
  cases text with
  | nil => cases h
  | cons c more =>
    have hless := length_of_exportAt? h
    rw [List.length_cons] at hless
    rw [allExports, List.length_cons, exportsFrom, h]
    exact congrArg (name :: ·) (exportsFrom_bound (by omega))

/-- The scan finds an export by its head and goes on behind it. -/
theorem allExports_head (h : head.Proper) (rest : Text) :
    allExports (head.text ++ rest) = head.name :: allExports rest :=
  allExports_of_exportAt? (exportAt?_text h rest)

/-- The scan skips text at whose places no export starts. -/
theorem allExports_append
    (h : ∀ part, part <:+ first → part ≠ [] → exportAt? (part ++ second) = none) :
    allExports (first ++ second) = allExports second := by
  induction first with
  | nil => rfl
  | cons c rest ih =>
    have hhere := h (c :: rest) (List.suffix_refl _) (List.cons_ne_nil _ _)
    have hrest := ih fun part hpart => h part (hpart.trans (List.suffix_cons c rest))
    exact (allExports_cons hhere).trans hrest

/-- The scan skips silent text. -/
theorem Silent.allExports (h : Silent first) :
    allExports (first ++ second) = allExports second := by
  refine allExports_append fun part hpart hne => exportAt?_eq_none fun pattern hpattern => ?_
  exact (h pattern hpattern).not_lead hpart hne second

/-- The scan skips quiet text before hushed text. -/
theorem Quiet.allExports (h : Quiet first) (hush : Hush second) :
    allExports (first ++ second) = allExports second := by
  refine allExports_append fun part hpart hne => exportAt?_eq_none fun pattern hpattern hlead => ?_
  rcases List.prefix_or_prefix_of_prefix hlead (List.prefix_append part second) with
    hshort | ⟨more, rfl⟩
  · exact h pattern hpattern (hshort.isInfix.trans hpart.isInfix)
  by_cases hnil : more = []
  · subst hnil
    rw [List.append_nil] at hpattern
    exact h part hpattern hpart.isInfix
  · exact hush _ hpattern more (List.suffix_append _ _) hnil
      ((List.prefix_append_right_inj part).1 hlead)

/-- The parts of a head behind its first letter. -/
def Head.tail (head : Head) : Text :=
  "xport" ++ (head.gap ++ ((head.word ++ head.before) ++ (head.name ++
    (head.behind ++ [head.sign]))))

/-- A head is its first letter and its tail. -/
theorem Head.text_eq_cons (head : Head) : head.text = 'e' :: head.tail := by
  have hword : "export".toList = 'e' :: "xport".toList := rfl
  rw [Head.text_eq, hword, List.cons_append, ← List.append_assoc head.word]
  rfl

/-- A blank is no letter of `export`. -/
theorem not_mem_export (h : isBlank c = true) : c ∉ ("export" : Text) := fun hmem => by
  have hletters : ("export" : Text).all (fun c => !isBlank c) = true := rfl
  have hletter := List.all_eq_true.1 hletters c hmem
  rw [h] at hletter
  cases hletter

/-- No export can start in a kind and the blanks behind it, although one of the
kinds ends with the first letter of `export`. -/
theorem silent_word (h : head.Proper) : Silent (head.word ++ head.before) := by
  obtain ⟨hne, hbefore⟩ := h.before
  obtain ⟨first, more, hfirst⟩ := List.exists_cons_of_ne_nil hne
  obtain ⟨last, hlast⟩ := Option.isSome_iff_exists.1 (List.getLast?_isSome.2 hne)
  have hword : ¬"export".toList <:+: head.word := by
    have hkinds : exportWords.all (fun word => !isInside "export" word) = true := rfl
    have hkind := List.all_eq_true.1 hkinds head.word h.word
    rw [Bool.not_eq_true'] at hkind
    exact lacks_of_isInside hkind
  have hblanks : ¬"export".toList <:+: head.before := fun hinside => by
    have hmem : 'e' ∈ head.before := hinside.subset (by decide)
    exact absurd (hbefore 'e' hmem) (by decide)
  have hparted : Parted "export" head.before :=
    parted_of_head (by rw [hfirst]; rfl) (not_mem_export (hbefore first (by simp [hfirst])))
  have hend : (head.word ++ head.before).getLast? = some last := by
    rw [List.getLast?_append, hlast]
    rfl
  exact silent_of_clear (clear_of_last (lacks_append hword hblanks hparted) hend
    (not_mem_export (hbefore last (List.mem_of_getLast? hlast))))

/-- No export can start in a name and what follows it up to the sign. -/
theorem silent_name (h : head.Proper) : Silent (head.name ++ (head.behind ++ [head.sign])) := by
  obtain ⟨hsignBlank, -, hsign, hsignKind⟩ := sign_cases h.sign
  have hbehind : Quiet (head.behind ++ [head.sign]) := by
    refine quiet_of_lacks fun hinside => ?_
    have hmem : 'e' ∈ head.behind ++ [head.sign] := hinside.subset (by decide)
    rcases List.mem_append.1 hmem with hd | hd
    · exact absurd (h.behind 'e' hd) (by decide)
    · exact hsign (List.mem_singleton.1 hd ▸ by decide)
  have hush : Hush (head.behind ++ [head.sign]) := by
    refine hush_of_head ?_ ?_
    · cases hcons : head.behind with
      | nil => simpa using hsign
      | cons d more =>
        simpa using not_mem_export (h.behind d (hcons ▸ List.mem_cons_self))
    · rw [List.dropWhile_append_of_pos h.behind]
      simpa [hsignBlank] using hsignKind
  have hend : (head.name ++ (head.behind ++ [head.sign])).getLast? = some head.sign := by
    rw [List.getLast?_append, List.getLast?_concat]
    rfl
  exact (h.name.quiet.append hbehind hush).silent hend hsignBlank hsign hsignKind

/-- No other export can start inside of a head. -/
theorem silent_tail (h : head.Proper) : Silent head.tail := by
  have hgap : Silent head.gap := silent_of_not_mem fun hmem =>
    absurd (h.gap.2 'e' hmem) (by decide)
  exact (silent_of_not_mem (by decide)).append
    (hgap.append ((silent_word h).append (silent_name h)))

/-- Where two heads stand, the second one starting not before the first, they are
the same, or the second stands behind the first. -/
theorem Head.Proper.front_or_behind {after before : Text} {other : Head} (hother : other.Proper)
    (h : head.Proper) (heq : other.text ++ after = before ++ (head.text ++ rest)) :
    (before = [] ∧ other.name = head.name) ∨
      ∃ middle, before = other.text ++ middle ∧ after = middle ++ (head.text ++ rest) := by
  cases before with
  | nil =>
    have hfound := exportAt?_text hother after
    rw [heq, List.nil_append, exportAt?_text h] at hfound
    obtain ⟨hname, -⟩ := Prod.mk.inj (Option.some.inj hfound)
    exact .inl ⟨rfl, hname.symm⟩
  | cons c ahead =>
    right
    rw [other.text_eq_cons, List.cons_append, List.cons_append] at heq
    obtain ⟨rfl, htail⟩ := List.cons.inj heq
    obtain ⟨pattern, hpattern, hlead⟩ := exists_announcement h
    rcases List.append_eq_append_iff.1 htail with ⟨middle, rfl, hafter⟩ | ⟨part, hpart, hhead⟩
    · exact ⟨middle, by rw [other.text_eq_cons, List.cons_append], hafter⟩
    · -- the second head cannot start in the tail of the first one
      by_cases hnil : part = []
      · subst hnil
        rw [List.append_nil] at hpart
        rw [List.nil_append] at hhead
        exact ⟨[], by rw [other.text_eq_cons, hpart, List.append_nil], hhead.symm⟩
      have hclear := silent_tail hother pattern hpattern
      exact absurd (hhead ▸ hlead.trans (List.prefix_append _ rest))
        (hclear.not_lead ⟨ahead, hpart.symm⟩ hnil after)

/-- Induction along a scan: a text is empty, or no export starts with its first
character, or an export stands at its start. -/
theorem scan_induction {P : Text → Prop} (nil : P [])
    (skip : ∀ c rest, exportAt? (c :: rest) = none → P rest → P (c :: rest))
    (found : ∀ head rest, Head.Proper head → P rest → P (head.text ++ rest)) (text : Text) :
    P text := by
  induction hlength : text.length using Nat.strongRecOn generalizing text with
  | ind length ih =>
    subst hlength
    cases text with
    | nil => exact nil
    | cons c rest =>
      cases hfound : exportAt? (c :: rest) with
      | none => exact skip c rest hfound (ih rest.length (Nat.lt_succ_self _) rest rfl)
      | some result =>
        obtain ⟨name, more⟩ := result
        have hmore := ih more.length (length_of_exportAt? hfound) more rfl
        obtain ⟨head, hproper, -, htext⟩ := exists_of_exportAt? hfound
        rw [htext]
        exact found head more hproper hmore

/-- An export is found wherever its head stands. -/
theorem mem_allExports (h : head.Proper) (hsuffix : head.text ++ rest <:+ text) :
    head.name ∈ allExports text := by
  induction text using scan_induction with
  | nil => exact absurd (List.suffix_nil.1 hsuffix) (by simp [Head.text_eq])
  | skip c others hnone ih =>
    rcases List.suffix_cons_iff.1 hsuffix with heq | hothers
    · rw [← heq, allExports_head h]
      exact List.mem_cons_self
    · rw [allExports_cons hnone]
      exact ih hothers
  | found other more hother ih =>
    rw [allExports_head hother]
    obtain ⟨before, hbefore⟩ := hsuffix
    rcases hother.front_or_behind h hbefore.symm with ⟨-, hname⟩ | ⟨middle, -, hmore⟩
    · rw [hname]
      exact List.mem_cons_self
    · exact List.mem_cons_of_mem _ (ih ⟨middle, hmore.symm⟩)

/-- Names are exported once, in order of first appearance. -/
theorem exports_eq (content : Text) : exports content = (allExports content).eraseDups := by
  have hdistinct (names : List Text) : distinct names = names.eraseDups := by
    induction names using List.reverseRecOn with
    | nil => rfl
    | append_singleton names name ih =>
      rw [distinct] at ih
      rw [distinct, List.foldl_concat, ih, List.eraseDups_append]
      by_cases h : name ∈ names
      · simp [h, List.removeAll]
      · simp [h, List.removeAll, List.eraseDups_cons]
  exact hdistinct _

end Scan

end InterfaceSchema.Barrel
