import InterfaceSchema.Proofs.Fixup.Scanning
import Mathlib.Data.List.Forall2
import Mathlib.Data.List.TakeWhile
import Mathlib.Tactic.ByContra

/-!
# Written lists of arguments

Arguments are written between brackets, with commas between them, blanks
wherever the writer likes and perhaps a comma behind the last one. Splitting
such a list gives back the arguments it was written of, and the position of the
bracket that closes it, whatever follows. An argument may hold anything that is
closed in itself: brackets inside brackets, commas inside brackets and any
characters inside strings.
-/

namespace InterfaceSchema.Calls

/-- The characters that open and close strings. -/
def quotes : List Char := ['\'', '"', '`']

/-- The brackets that open a group. -/
def openers : List Char := ['(', '[', '\x7b']

/-- The brackets that close a group. -/
def closers : List Char := [')', ']', '\x7d']

/-- What can stand in a string with this quote: escaped characters, and
characters that are neither the quote nor a backslash. -/
inductive Enclosed (quote : Char) : Text → Prop where
  | nil : Enclosed quote []
  | escaped (c : Char) {rest : Text} (hrest : Enclosed quote rest) :
      Enclosed quote ('\\' :: c :: rest)
  | plain {c : Char} {rest : Text} (hquote : c ≠ quote) (hslash : c ≠ '\\')
      (hrest : Enclosed quote rest) : Enclosed quote (c :: rest)

/-- Texts that close this many open brackets and every bracket and string they
open. They hold no comma outside of all brackets. -/
inductive Closing : Nat → Text → Prop where
  | nil : Closing 0 []
  | plain {depth : Nat} {c : Char} {rest : Text} (hc : isPlain c = true)
      (hrest : Closing depth rest) : Closing depth (c :: rest)
  | comma {depth : Nat} {rest : Text} (hrest : Closing (depth + 1) rest) :
      Closing (depth + 1) (',' :: rest)
  | string {depth : Nat} {quote : Char} {inner rest : Text} (hquote : quote ∈ quotes)
      (hinner : Enclosed quote inner) (hrest : Closing depth rest) :
      Closing depth (quote :: (inner ++ quote :: rest))
  | opening {depth : Nat} {c : Char} {rest : Text} (hc : c ∈ openers)
      (hrest : Closing (depth + 1) rest) : Closing depth (c :: rest)
  | closing {depth : Nat} {c : Char} {rest : Text} (hc : c ∈ closers)
      (hrest : Closing depth rest) : Closing (depth + 1) (c :: rest)

/-- What is an argument by itself: it has a first and a last character, which
are no blanks, and is closed. -/
structure IsArgument (text : Text) : Prop where
  /-- It is not empty and starts with no blank. -/
  first : ∃ c, text.head? = some c ∧ Text.isBlank c = false
  /-- It ends with no blank. -/
  last : ∃ c, text.getLast? = some c ∧ Text.isBlank c = false
  /-- Its brackets and strings are closed, and it has no comma outside. -/
  closed : Closing 0 text

/-- Texts of blanks only. -/
def Blanks (text : Text) : Prop := ∀ c ∈ text, Text.isBlank c = true

instance (text : Text) : Decidable (Blanks text) :=
  inferInstanceAs (Decidable (∀ c ∈ text, Text.isBlank c = true))

/-- An argument with blanks around it. -/
def Padded (argument piece : Text) : Prop :=
  ∃ front back, Blanks front ∧ Blanks back ∧ piece = front ++ (argument ++ back)

/-- What is written between the brackets of a call. -/
inductive Written : List Text → Text → Prop where
  | none {blanks : Text} (hblanks : Blanks blanks) : Written [] blanks
  | list {arguments parts : List Text} (hne : arguments ≠ [])
      (hparts : List.Forall₂ Padded arguments parts) :
      Written arguments (Text.joinWith "," parts)
  | trailing {arguments parts : List Text} {blanks : Text} (hne : arguments ≠ [])
      (hparts : List.Forall₂ Padded arguments parts) (hblanks : Blanks blanks) :
      Written arguments (Text.joinWith "," parts ++ ',' :: blanks)

/-- The arguments of the call whose opening bracket stands at this byte of the
code, and the position of its closing bracket. -/
def splitArgumentsAt (code : Text) (opening : Nat) : Option (List Text × Nat) :=
  (splitArguments (Text.dropBytes (opening + 1) code)).map fun found =>
    (found.1, Text.byteLength code - (Text.byteLength found.2 + 1))

section

variable {place place' : Place} {text rest piece after inside : Text}
  {parts arguments : List Text} {quote : Char} {depth : Nat}

/-! ## Going through closed texts -/

/-- A scan goes on behind a string as it stood before it. -/
theorem through_enclosed (hquote : quote ∈ quotes) (h : Enclosed quote text) (depth : Nat)
    (rest : Text) :
    through (.quoted quote depth) (text ++ quote :: rest) = through (.code depth) rest := by
  have hslash : '\\' ≠ quote := by
    rintro rfl
    exact absurd hquote (by decide)
  induction h with
  | nil =>
    rw [List.nil_append, through, if_neg (by simp), Place.next, if_pos rfl]
  | escaped c hinner ih =>
    have hback : Place.next (.quoted quote depth) '\\' = .escaped quote depth := by
      simp [Place.next, hslash]
    rw [List.cons_append, List.cons_append, through, if_neg (by simp), hback, through,
      if_neg (by simp)]
    exact ih
  | @plain c inner hc hback hinner ih =>
    have hnext : Place.next (.quoted quote depth) c = .quoted quote depth := by
      simp [Place.next, hc, hback]
    rw [List.cons_append, through, if_neg (by simp), hnext]
    exact ih

/-- What a closing text closes is what a scan comes out of. -/
theorem through_closing (h : Closing depth text) :
    through (.code depth) text = some (.code 0) := by
  induction h with
  | nil => rfl
  | @plain depth c rest hc hrest ih =>
    have hplain : through (.code depth) [c] = some (.code depth) :=
      through_plain (by simp [hc]) depth
    have hparts := through_append (.code depth) [c] rest
    rw [hplain, List.singleton_append] at hparts
    exact hparts.trans ih
  | @comma depth rest hrest ih =>
    have hnext : Place.next (.code (depth + 1)) ',' = .code (depth + 1) := rfl
    rw [through, if_neg (by simp), hnext]
    exact ih
  | @string depth quote inner rest hquote hinner hrest ih =>
    have hnext : Place.next (.code depth) quote = .quoted quote depth := by
      rw [Place.next, if_pos (by simpa [quotes] using hquote)]
    have hgo : ¬(Place.code depth = .code 0 ∧
        (quote = ')' ∨ quote = ']' ∨ quote = '\x7d' ∨ quote = ',')) := by
      rintro ⟨-, rfl | rfl | rfl | rfl⟩ <;> exact absurd hquote (by decide)
    rw [through, if_neg hgo, hnext, through_enclosed hquote hinner]
    exact ih
  | @opening depth c rest hc hrest ih =>
    simp only [openers, List.mem_cons, List.not_mem_nil, or_false] at hc
    have hnext : Place.next (.code depth) c = .code (depth + 1) := by
      rcases hc with rfl | rfl | rfl <;> rfl
    rw [through, if_neg (by rcases hc with rfl | rfl | rfl <;> simp), hnext]
    exact ih
  | @closing depth c rest hc hrest ih =>
    simp only [closers, List.mem_cons, List.not_mem_nil, or_false] at hc
    have hnext : Place.next (.code (depth + 1)) c = .code depth := by
      rcases hc with rfl | rfl | rfl <;> rfl
    rw [through, if_neg (by simp), hnext]
    exact ih

/-- What a text has to be for a scan that stands at a place to come out of all
brackets and strings at its end. -/
def Finishing : Place → Text → Prop
  | .code depth, text => Closing depth text
  | .quoted quote depth, text => ∃ inner rest, text = inner ++ quote :: rest ∧
      Enclosed quote inner ∧ Closing depth rest
  | .escaped quote depth, text => ∃ c inner rest, text = c :: (inner ++ quote :: rest) ∧
      Enclosed quote inner ∧ Closing depth rest

/-- One character in front of a text, seen from where a scan stands before it. -/
theorem Finishing.cons {c : Char} (hopen : ¬(place = .code 0 ∧
    (c = ')' ∨ c = ']' ∨ c = '\x7d' ∨ c = ','))) (h : Finishing (place.next c) rest) :
    Finishing place (c :: rest) := by
  cases place with
  | escaped quote depth =>
    obtain ⟨inner, rest, rfl, hinner, hrest⟩ := h
    exact ⟨c, inner, rest, rfl, hinner, hrest⟩
  | quoted quote depth =>
    rw [Place.next] at h
    split at h
    · next hc =>
      subst hc
      exact ⟨[], rest, rfl, .nil, h⟩
    next hquote =>
    split at h
    · next hc =>
      subst hc
      obtain ⟨escaped, inner, rest, rfl, hinner, hrest⟩ := h
      exact ⟨'\\' :: escaped :: inner, rest, rfl, .escaped escaped hinner, hrest⟩
    · next hslash =>
      obtain ⟨inner, rest, rfl, hinner, hrest⟩ := h
      exact ⟨c :: inner, rest, rfl, .plain hquote hslash hinner, hrest⟩
  | code depth =>
    rw [Place.next] at h
    split at h
    · next hc =>
      obtain ⟨inner, rest, rfl, hinner, hrest⟩ := h
      exact .string (by simpa [quotes] using hc) hinner hrest
    next hquote =>
    split at h
    · next hc => exact .opening (by simpa [openers] using hc) h
    next hopener =>
    -- Out of all brackets the scan has come to no closing bracket and no comma.
    cases depth with
    | zero =>
      simp only [true_and, not_or] at hopen
      rw [if_neg (by simp [hopen])] at h
      exact .plain (by simp_all [isPlain]) h
    | succ depth =>
      split at h
      · next hc => exact .closing (by simpa [closers] using hc) h
      next hcloser =>
      by_cases hcomma : c = ','
      · subst hcomma
        exact .comma h
      · exact .plain (by simp_all [isPlain]) h

/-- The texts a scan comes out of are the closed ones. -/
theorem closing_iff_through : Closing depth text ↔
    through (.code depth) text = some (.code 0) := by
  refine ⟨through_closing, fun h => ?_⟩
  suffices hplace : ∀ place, through place text = some (.code 0) → Finishing place text from
    hplace _ h
  clear h
  induction text with
  | nil =>
    intro place h
    cases h
    exact Closing.nil
  | cons c rest ih =>
    intro place h
    rw [through] at h
    split at h
    · cases h
    · next hopen => exact .cons hopen (ih _ h)

instance (depth : Nat) (text : Text) : Decidable (Closing depth text) :=
  decidable_of_iff _ closing_iff_through.symm

/-- Blanks have no meaning for a scan of code. -/
theorem through_blanks (h : Blanks text) (depth : Nat) :
    through (.code depth) text = some (.code depth) := by
  refine through_plain (List.all_eq_true.2 fun c hc => ?_) depth
  have hblank := h c hc
  by_contra hmark
  simp only [isPlain, Bool.not_eq_true, Bool.not_eq_false', Bool.or_eq_true, beq_iff_eq] at hmark
  rcases hmark with (((((((((rfl | rfl) | rfl) | rfl) | rfl) | rfl) | rfl) | rfl) | rfl) | rfl) <;>
    exact absurd hblank (by decide)

/-- A scan goes through an argument and the blanks around it. -/
theorem Padded.through (h : Padded text piece) (htext : Closing 0 text) :
    through (.code 0) piece = some (.code 0) := by
  obtain ⟨front, back, hfront, hback, rfl⟩ := h
  rw [through_append, through_blanks hfront, Option.bind_some, through_append,
    through_closing htext, Option.bind_some, through_blanks hback]

/-! ## The pieces of a list -/

/-- A comma ends the piece in front of it. -/
theorem pieces_comma (h : through (.code 0) text = some (.code 0))
    (hrest : pieces (.code 0) rest = some (parts, after)) :
    pieces (.code 0) (text ++ ',' :: rest) = some (text :: parts, after) := by
  have hcomma : pieces (.code 0) (',' :: rest) = some ([] :: parts, after) := by
    rw [pieces, if_neg (by simp), if_pos ⟨rfl, rfl⟩, hrest]
    rfl
  have hpieces := pieces_through h hcomma
  rwa [List.append_nil] at hpieces

/-- Parts that a scan goes through, written with commas between them, are the
pieces up to the bracket. -/
theorem pieces_joinWith (hne : parts ≠ [])
    (h : ∀ part ∈ parts, through (.code 0) part = some (.code 0)) (after : Text) :
    pieces (.code 0) (Text.joinWith "," parts ++ ')' :: after) = some (parts, after) := by
  induction parts with
  | nil => exact absurd rfl hne
  | cons part more ih =>
    have hpart := h part List.mem_cons_self
    cases more with
    | nil =>
      rw [Text.joinWith_singleton]
      exact pieces_single hpart after
    | cons second rest =>
      have hrest := ih (List.cons_ne_nil _ _) fun part hmem => h part (.tail _ hmem)
      rw [Text.joinWith_cons_cons, List.append_assoc, List.append_assoc]
      exact pieces_comma hpart hrest

/-- The pieces of a list with a comma behind it: the blanks behind the comma
are one more. -/
theorem pieces_trailing (h : ∀ part ∈ parts, through (.code 0) part = some (.code 0))
    (hne : parts ≠ []) (hrest : through (.code 0) rest = some (.code 0)) (after : Text) :
    pieces (.code 0) ((Text.joinWith "," parts ++ ',' :: rest) ++ ')' :: after) =
      some (parts ++ [rest], after) := by
  have hall : ∀ part ∈ parts ++ [rest], through (.code 0) part = some (.code 0) := by
    intro part hpart
    rcases List.mem_append.1 hpart with hpart | hpart
    · exact h part hpart
    · rwa [List.mem_singleton.1 hpart]
  have hpieces := pieces_joinWith (by simp) hall after
  rw [Text.joinWith_append "," hne (List.cons_ne_nil _ _), Text.joinWith_singleton] at hpieces
  exact hpieces

/-! ## The arguments of the pieces -/

/-- Nothing is left of blanks. -/
theorem trim_blanks (h : Blanks text) : Text.trim text = [] := by
  have hstart : Text.trimStart text = [] := List.dropWhile_eq_nil_iff.2 h
  rw [Text.trim, hstart]
  rfl

/-- Trimming takes the blanks around an argument, and nothing of the argument. -/
theorem Padded.trim (h : Padded text piece) (htext : IsArgument text) :
    Text.trim piece = text := by
  obtain ⟨front, back, hfront, hback, rfl⟩ := h
  obtain ⟨first, hhead, hfirst⟩ := htext.first
  obtain ⟨last, hend, hlast⟩ := htext.last
  obtain ⟨tail, rfl⟩ := List.head?_eq_some_iff.1 hhead
  have hstart : Text.trimStart (front ++ (first :: tail ++ back)) = first :: tail ++ back := by
    rw [Text.trimStart, List.dropWhile_append_of_pos hfront, List.cons_append,
      List.dropWhile_cons, hfirst]
    rfl
  obtain ⟨lead, hlead⟩ := List.getLast?_eq_some_iff.1 hend
  have hback' : ∀ c ∈ back.reverse, Text.isBlank c = true := fun c hc =>
    hback c (List.mem_reverse.1 hc)
  rw [Text.trim, hstart, Text.trimEnd, hlead, List.reverse_append,
    List.dropWhile_append_of_pos hback', List.reverse_append, List.reverse_singleton,
    List.singleton_append, List.dropWhile_cons, hlast]
  simp

/-- Trimmed, the parts of a list are its arguments. -/
theorem map_trim_parts (hparts : List.Forall₂ Padded arguments parts)
    (h : ∀ argument ∈ arguments, IsArgument argument) : parts.map Text.trim = arguments := by
  induction hparts with
  | nil => rfl
  | cons hpart hmore ih =>
    rw [List.map_cons, hpart.trim (h _ List.mem_cons_self),
      ih fun argument hmem => h argument (.tail _ hmem)]

/-- No argument is lost if none is empty. -/
theorem argumentsOf_parts (hparts : List.Forall₂ Padded arguments parts)
    (h : ∀ argument ∈ arguments, IsArgument argument) : argumentsOf parts = arguments := by
  have hlast : arguments.getLast? ≠ some [] := by
    intro hlast
    obtain ⟨c, hhead, -⟩ := (h [] (List.mem_of_getLast? hlast)).first
    cases hhead
  rw [argumentsOf, map_trim_parts hparts h]
  exact if_neg hlast

/-- An empty piece behind the arguments is none of them. -/
theorem argumentsOf_trailing (hparts : List.Forall₂ Padded arguments parts)
    (h : ∀ argument ∈ arguments, IsArgument argument) (hrest : Blanks rest) :
    argumentsOf (parts ++ [rest]) = arguments := by
  have htrimmed : (parts ++ [rest]).map Text.trim = arguments ++ [[]] := by
    rw [List.map_append, map_trim_parts hparts h, List.map_singleton, trim_blanks hrest]
  rw [argumentsOf, htrimmed, List.getLast?_concat]
  exact List.dropLast_concat

/-- There are as many parts as arguments. -/
theorem ne_nil_of_parts (hparts : List.Forall₂ Padded arguments parts) (hne : arguments ≠ []) :
    parts ≠ [] := by
  rintro rfl
  cases hparts
  exact hne rfl

/-- A scan goes through every part of a list of arguments. -/
theorem through_parts (hparts : List.Forall₂ Padded arguments parts)
    (h : ∀ argument ∈ arguments, IsArgument argument) :
    ∀ part ∈ parts, through (.code 0) part = some (.code 0) := by
  induction hparts with
  | nil => exact List.forall_mem_nil _
  | cons hpart hmore ih =>
    refine List.forall_mem_cons.2 ⟨hpart.through (h _ List.mem_cons_self).closed, ?_⟩
    exact ih fun argument hmem => h argument (.tail _ hmem)

/-! ## Splitting what was written -/

/-- Behind the opening bracket of a call, splitting gives the arguments that
were written and the text behind the closing bracket. -/
theorem splitArguments_of_written (h : Written arguments inside)
    (harguments : ∀ argument ∈ arguments, IsArgument argument) (after : Text) :
    splitArguments (inside ++ ')' :: after) = some (arguments, after) := by
  cases h with
  | none hblanks =>
    rw [splitArguments, pieces_single (through_blanks hblanks 0) after, Option.map_some,
      argumentsOf, List.map_singleton, trim_blanks hblanks]
    rfl
  | list hne hparts =>
    rw [splitArguments, pieces_joinWith (ne_nil_of_parts hparts hne)
      (through_parts hparts harguments) after, Option.map_some,
      argumentsOf_parts hparts harguments]
  | trailing hne hparts hblanks =>
    rw [splitArguments, pieces_trailing (through_parts hparts harguments)
      (ne_nil_of_parts hparts hne) (through_blanks hblanks 0) after, Option.map_some,
      argumentsOf_trailing hparts harguments hblanks]

/-- The replacing of calls sees the arguments of a call as splitting gives
them. -/
theorem openCall?_eq_splitArguments {before : Option Char} (hstart : startsName before = true)
    (text : Text) :
    (openCall? before ('(' :: text)).map (fun found => (argumentsOf found.1, found.2)) =
      splitArguments text := by
  rw [openCall?, if_pos hstart, splitArguments]

/-- Splitting a call gives the arguments its list was written of and the
position of the bracket that closes it, whatever stands before and behind the
call. -/
theorem splitArgumentsAt_of_written (harguments : ∀ argument ∈ arguments, IsArgument argument)
    (h : Written arguments inside) (before after : Text) :
    splitArgumentsAt (before ++ '(' :: (inside ++ ')' :: after)) (Text.byteLength before) =
      some (arguments, Text.byteLength (before ++ '(' :: inside)) := by
  have hbracket : Text.byteLength (before ++ ['(']) = Text.byteLength before + 1 := by
    rw [Text.byteLength_append]
    rfl
  have hdrop := Text.dropBytes_byteLength_append (before ++ ['(']) (inside ++ ')' :: after)
  rw [hbracket, List.append_assoc, List.singleton_append] at hdrop
  have hclose : ')'.utf8Size = 1 := rfl
  rw [splitArgumentsAt, hdrop, splitArguments_of_written h harguments after, Option.map_some]
  simp only [Text.byteLength_append, Text.byteLength_cons, hclose, Option.some.injEq,
    Prod.mk.injEq, true_and]
  omega

/-- Commas in brackets and brackets in strings do not count, and the comma
behind the last argument is none. -/
theorem splitArgumentsAt_nested_calls :
    (∀ argument ∈ (["g(b, c)", "['\\')', d]"] : List Text), IsArgument argument) ∧
    Written ["g(b, c)", "['\\')', d]"] "g(b, c) ,\t['\\')', d],\n" ∧
    splitArgumentsAt "f(g(b, c) ,\t['\\')', d],\n)]" 1 =
      some ((["g(b, c)", "['\\')', d]"] : List Text), 24) := by
  have harguments :
      ∀ argument ∈ (["g(b, c)", "['\\')', d]"] : List Text), IsArgument argument := by
    refine List.forall_mem_cons.2 ⟨?_, List.forall_mem_singleton.2 ?_⟩
    · exact ⟨⟨'g', rfl, rfl⟩, ⟨')', rfl, rfl⟩, by decide⟩
    · exact ⟨⟨'[', rfl, rfl⟩, ⟨']', rfl, rfl⟩, by decide⟩
  have hparts : List.Forall₂ Padded ["g(b, c)", "['\\')', d]"]
      ["g(b, c) ", "\t['\\')', d]"] :=
    .cons ⟨[], " ", List.forall_mem_nil _, List.all_eq_true.1 rfl, rfl⟩
      (.cons ⟨"\t", [], List.all_eq_true.1 rfl, List.forall_mem_nil _, rfl⟩ .nil)
  have hblanks : ∀ c ∈ ("\n" : Text), Text.isBlank c = true := List.all_eq_true.1 rfl
  have hwritten : Written ["g(b, c)", "['\\')', d]"] "g(b, c) ,\t['\\')', d],\n" :=
    .trailing (List.cons_ne_nil _ _) hparts hblanks
  exact ⟨harguments, hwritten, splitArgumentsAt_of_written harguments hwritten "f" "]"⟩

end

end InterfaceSchema.Calls
