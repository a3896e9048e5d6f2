import InterfaceSchema.Dialect.Basic
import InterfaceSchema.Proofs.Fixup.Replacing
import Mathlib.Data.List.Forall2

/-!
# Expressions in code

Generated code consists of expressions and of fixed text around them, laid out
in blocks that shift what is nested in them. An expression becomes another one
if replacing calls turns the one into the other wherever it stands and however
far it is shifted. Code is woven from such expressions by putting them behind
each other with seams between them, which replacing leaves alone.
-/

namespace InterfaceSchema

namespace Layout

/-- A text shifted to the right a number of times. -/
def shifted : Nat → Text → Text
  | 0, text => text
  | times + 1, text => shifted times (shift text)

/-- The last character of a text, if there is one, is no part of a line end. -/
def Firm (text : Text) : Prop := ∀ c, text.getLast? = some c → c ≠ '\n' ∧ c ≠ '\r'

variable {text first second : Text} {c : Char}

/-- A text is firm if its last character is no part of a line end. -/
theorem firm_of_last (hlast : text.getLast? = some c) (hfeed : c ≠ '\n') (hreturn : c ≠ '\r') :
    Firm text := fun d hd => by
  obtain rfl : c = d := Option.some.inj (hlast.symm.trans hd)
  exact ⟨hfeed, hreturn⟩

/-- A firm text is shifted apart from what follows it. -/
theorem shift_append_firm (h : Firm first) (second : Text) :
    shift (first ++ second) = shift first ++ shift second :=
  shift_append fun hlast => absurd rfl (h '\r' hlast).2

/-- Shifting keeps the end of a firm text. -/
theorem getLast?_shift (h : Firm text) : (shift text).getLast? = text.getLast? := by
  cases hlast : text.getLast? with
  | none =>
    obtain rfl := List.getLast?_eq_none_iff.1 hlast
    rfl
  | some c =>
    obtain ⟨before, rfl⟩ := List.getLast?_eq_some_iff.1 hlast
    obtain ⟨hfeed, -⟩ := h c hlast
    have hsingle : shift [c] = [c] := shift_eq_self (by simpa using Ne.symm hfeed)
    rw [shift_append fun _ => by simpa using hfeed, hsingle, List.getLast?_concat]

/-- Shifting keeps the start of a text that starts with no carriage return. -/
theorem head?_shift (h : text.head? = some c) (hreturn : c ≠ '\r') :
    (shift text).head? = some c := by
  obtain ⟨rest, rfl⟩ := List.head?_eq_some_iff.1 h
  by_cases hfeed : c = '\n'
  · rw [hfeed]
    rfl
  · rw [shift_cons hfeed fun hc => absurd hc hreturn]
    rfl

/-- A firm text stays firm. -/
theorem Firm.shift (h : Firm text) : Firm (shift text) := by
  rw [Firm, getLast?_shift h]
  exact h

/-- Shifting any number of times goes part by part. -/
theorem shifted_append (h : Firm first) (times : Nat) (second : Text) :
    shifted times (first ++ second) = shifted times first ++ shifted times second := by
  induction times generalizing first second with
  | zero => rfl
  | succ times ih => rw [shifted, shift_append_firm h, ih h.shift, shifted, shifted]

/-- A text without line feeds stays as it is. -/
theorem shifted_eq_self (h : '\n' ∉ text) (times : Nat) : shifted times text = text := by
  induction times with
  | zero => rfl
  | succ times ih => rw [shifted, shift_eq_self h, ih]

/-- A text with a comma and a blank behind it is shifted apart from what follows
them. -/
theorem shifted_pair (h : Firm first) (times : Nat) (second : Text) :
    shifted times (first ++ (", " ++ second)) =
      shifted times first ++ (", " ++ shifted times second) := by
  have hcomma : Firm (", " : Text) := @firm_of_last _ ' ' rfl (by decide) (by decide)
  have hself : shifted times (", " : Text) = ", " := shifted_eq_self (by decide) times
  rw [shifted_append h, shifted_append hcomma, hself]

/-- The end of a firm text stays. -/
theorem getLast?_shifted (h : Firm text) (times : Nat) :
    (shifted times text).getLast? = text.getLast? := by
  induction times generalizing text with
  | zero => rfl
  | succ times ih => rw [shifted, ih h.shift, getLast?_shift h]

/-- The start of a text that starts with no carriage return stays. -/
theorem head?_shifted (h : text.head? = some c) (hreturn : c ≠ '\r') (times : Nat) :
    (shifted times text).head? = some c := by
  induction times generalizing text with
  | zero => exact h
  | succ times ih => exact ih (head?_shift h hreturn)

/-- A pattern on one line does not come to stand in a text by shifting it. -/
theorem lacks_shifted {pattern : Text} (hne : pattern ≠ []) (hfeed : '\n' ∉ pattern)
    (hblank : pattern.head? ≠ some ' ') (h : ¬pattern <:+: text) (times : Nat) :
    ¬pattern <:+: shifted times text := by
  induction times generalizing text with
  | zero => exact h
  | succ times ih => exact ih (Text.lacks_shift hne hfeed hblank h)

/-- A scan goes through a text however often it is shifted. -/
theorem through_shifted {place : Calls.Place} (h : place.Proper) (times : Nat) (text : Text) :
    Calls.through place (shifted times text) = Calls.through place text := by
  induction times generalizing text with
  | zero => rfl
  | succ times ih => rw [shifted, ih, Calls.through_shift h]

end Layout

namespace Calls

open Layout

/-- A text that can stand for a function: the characters of a name. -/
structure Callable (callee : Text) : Prop where
  ne_nil : callee ≠ []
  all : callee.all (fun c => !startsName (some c)) = true

/-- Fixed text between expressions, behind which a name can start. -/
structure Seam (callee text : Text) : Prop where
  lacks : ¬callee <:+: text
  last : ∃ c, text.getLast? = some c ∧ startsName (some c) = true ∧ c ≠ '\n' ∧ c ≠ '\r'

/-- A seam at which an expression ends: it neither completes the name of the
function nor calls it. -/
structure Joint (callee text : Text) : Prop extends Seam callee text where
  parted : ∀ times rest, Text.Parted callee (shifted times text ++ rest)
  closed : ∃ c, text.head? = some c ∧ c ≠ '(' ∧ c ≠ '\r'

/-- An expression that becomes another one when calls are replaced, wherever it
stands and however far it is shifted. -/
structure Becomes (callee : Text) (change : List Text → Option Text) (text new : Text) : Prop where
  replaced : ∀ times before rest, startsName before = true → Text.Parted callee rest →
    rest.head? ≠ some '(' → replaced callee change before (shifted times text ++ rest) =
      shifted times new ++ replaced callee change text.getLast? rest
  through : through (.code 0) text = some (.code 0)
  first : ∃ c, text.head? = some c ∧ Text.isBlank c = false
  last : ∃ c, text.getLast? = some c ∧ Text.isBlank c = false
  last_eq : new.getLast? = text.getLast?

/-- Code from its start up to a seam, this many brackets deep. -/
structure Woven (callee : Text) (change : List Text → Option Text) (depth : Nat) (text new : Text) :
    Prop where
  replaced : ∀ times before rest, startsName before = true →
    replaced callee change before (shifted times text ++ rest) =
      shifted times new ++ replaced callee change (text.getLast?.or before) rest
  through : through (.code 0) text = some (.code depth)
  last : ∀ c, text.getLast? = some c → startsName (some c) = true ∧ c ≠ '\n' ∧ c ≠ '\r'
  last_eq : new.getLast? = text.getLast?

variable {callee : Text} {change : List Text → Option Text} {text new item changed fixed : Text}
  {depth depth' : Nat}

namespace Callable

/-- No name starts behind a character of a callee. -/
theorem named (h : Callable callee) {c : Char} (hc : c ∈ callee) : startsName (some c) = false := by
  simpa using List.all_eq_true.1 h.all c hc

/-- A character at which a name can start is none of a callee. -/
theorem not_mem (h : Callable callee) {c : Char} (hc : startsName (some c) = true) : c ∉ callee :=
  fun hmem => by simp [h.named hmem] at hc

/-- A callee does not start with a blank. -/
theorem head_ne (h : Callable callee) : callee.head? ≠ some ' ' := fun hhead =>
  h.not_mem rfl (List.mem_of_mem_head? hhead)

/-- A callee does not come to stand in a text by shifting it. -/
theorem lacks_shifted (h : Callable callee) (hlacks : ¬callee <:+: text) (times : Nat) :
    ¬callee <:+: shifted times text :=
  Layout.lacks_shifted h.ne_nil (h.not_mem rfl) h.head_ne hlacks times

end Callable

/-- A seam is firm. -/
theorem Seam.firm (h : Seam callee fixed) : Firm fixed := by
  obtain ⟨c, hlast, -, hfeed, hreturn⟩ := h.last
  exact firm_of_last hlast hfeed hreturn

/-- Replacing leaves a seam alone. -/
theorem Seam.replaced (h : Seam callee fixed) (hcallee : Callable callee) (times : Nat)
    (before : Option Char) (rest : Text) :
    Calls.replaced callee change before (shifted times fixed ++ rest) =
      shifted times fixed ++ Calls.replaced callee change fixed.getLast? rest := by
  obtain ⟨c, hlast, hstarts, -, -⟩ := h.last
  have hlast' : (shifted times fixed).getLast? = some c :=
    (getLast?_shifted h.firm times).trans hlast
  have hclear : Text.Clear callee (shifted times fixed) :=
    Text.clear_of_last (hcallee.lacks_shifted h.lacks times) hlast' (hcallee.not_mem hstarts)
  rw [replaced_clear hclear, hlast', hlast]
  rfl

/-- An expression is firm. -/
theorem Becomes.firm (h : Becomes callee change text new) : Firm text := by
  obtain ⟨c, hlast, hblank⟩ := h.last
  refine firm_of_last hlast ?_ ?_ <;>
  · rintro rfl
    exact absurd hblank (by decide)

/-- What a firm text becomes is firm. -/
theorem firm_of_eq (h : Firm text) (heq : new.getLast? = text.getLast?) : Firm new := by
  rw [Firm, heq]
  exact h

/-- Woven code is firm. -/
theorem Woven.firm (h : Woven callee change depth text new) : Firm text :=
  fun c hc => (h.last c hc).2

/-- Nothing is woven code. -/
theorem Woven.nil : Woven callee change 0 [] [] where
  replaced times before rest _ := by
    have hnil : shifted times [] = [] := shifted_eq_self (by simp) times
    rw [hnil]
    rfl
  through := rfl
  last c hc := by cases hc
  last_eq := rfl

/-- A seam behind woven code. -/
theorem Woven.seam (h : Woven callee change depth text new) (hcallee : Callable callee)
    (hseam : Seam callee fixed)
    (hthrough : Calls.through (.code depth) fixed = some (.code depth')) :
    Woven callee change depth' (text ++ fixed) (new ++ fixed) where
  replaced times before rest hbefore := by
    rw [shifted_append h.firm, shifted_append (firm_of_eq h.firm h.last_eq), List.append_assoc,
      h.replaced times before _ hbefore, hseam.replaced hcallee, List.append_assoc]
    obtain ⟨c, hlast, -⟩ := hseam.last
    rw [List.getLast?_append, hlast]
    rfl
  through := by
    rw [through_append, h.through]
    exact hthrough
  last c hc := by
    obtain ⟨d, hlast, hstarts⟩ := hseam.last
    rw [List.getLast?_append, hlast] at hc
    obtain rfl : d = c := Option.some.inj hc
    exact hstarts
  last_eq := by
    obtain ⟨c, hlast, -⟩ := hseam.last
    rw [List.getLast?_append, List.getLast?_append, hlast]
    rfl

/-- A scan of code goes through an expression, however deep it stands. -/
theorem Becomes.through_at (h : Becomes callee change item changed) (depth : Nat) :
    Calls.through (.code depth) item = some (.code depth) := by
  simpa only [Place.deeper, Nat.zero_add] using through_deeper depth h.through

/-- A name can start behind woven code. -/
theorem Woven.startsName (h : Woven callee change depth text new) {before : Option Char}
    (hbefore : startsName before = true) : startsName (text.getLast?.or before) = true := by
  cases hlast : text.getLast? with
  | none => exact hbefore
  | some c => exact (h.last c hlast).1

/-- An expression behind woven code, with the joint that ends it. -/
theorem Woven.join (h : Woven callee change depth text new) (hcallee : Callable callee)
    (hitem : Becomes callee change item changed) (hjoint : Joint callee fixed)
    (hthrough : Calls.through (.code depth) fixed = some (.code depth')) :
    Woven callee change depth' (text ++ (item ++ fixed)) (new ++ (changed ++ fixed)) where
  replaced times before rest hbefore := by
    obtain ⟨first, hfirst, hopen, hreturn⟩ := hjoint.closed
    have hhead : (shifted times fixed ++ rest).head? ≠ some '(' := by
      rw [List.head?_append, head?_shifted hfirst hreturn]
      simpa using hopen
    obtain ⟨last, hlast, -⟩ := hjoint.last
    rw [shifted_append h.firm, shifted_append hitem.firm,
      shifted_append (firm_of_eq h.firm h.last_eq),
      shifted_append (firm_of_eq hitem.firm hitem.last_eq), List.append_assoc, List.append_assoc,
      h.replaced times before _ hbefore,
      hitem.replaced times _ _ (h.startsName hbefore) (hjoint.parted times rest) hhead,
      hjoint.toSeam.replaced hcallee, List.append_assoc, List.append_assoc, List.getLast?_append,
      List.getLast?_append, hlast]
    rfl
  through := by
    rw [through_append, h.through, Option.bind_some, through_append, hitem.through_at]
    exact hthrough
  last c hc := by
    obtain ⟨d, hlast, hstarts⟩ := hjoint.last
    rw [List.getLast?_append, List.getLast?_append, hlast] at hc
    obtain rfl : d = c := Option.some.inj hc
    exact hstarts
  last_eq := by
    obtain ⟨c, hlast, -⟩ := hjoint.last
    rw [List.getLast?_append, List.getLast?_append, List.getLast?_append, List.getLast?_append,
      hlast]
    rfl

/-- Woven code with all its brackets closed is an expression. -/
theorem Woven.becomes (h : Woven callee change 0 text new)
    (hfirst : ∃ c, text.head? = some c ∧ Text.isBlank c = false)
    (hlast : ∃ c, text.getLast? = some c ∧ Text.isBlank c = false) :
    Becomes callee change text new where
  replaced times before rest hbefore _ _ := by
    obtain ⟨c, hc, -⟩ := hlast
    rw [h.replaced times before rest hbefore, hc]
    rfl
  through := h.through
  first := hfirst
  last := hlast
  last_eq := h.last_eq

/-- An expression shifted once more is one as well. -/
theorem Becomes.shift (h : Becomes callee change text new) :
    Becomes callee change (Layout.shift text) (Layout.shift new) where
  replaced times before rest hbefore hparted hopen := by
    rw [getLast?_shift h.firm]
    exact h.replaced (times + 1) before rest hbefore hparted hopen
  through := by
    rw [@through_shift (.code 0) trivial]
    exact h.through
  first := by
    obtain ⟨c, hfirst, hblank⟩ := h.first
    refine ⟨c, head?_shift hfirst ?_, hblank⟩
    rintro rfl
    exact absurd hblank (by decide)
  last := by
    rw [getLast?_shift h.firm]
    exact h.last
  last_eq := by
    rw [getLast?_shift h.firm, getLast?_shift (firm_of_eq h.firm h.last_eq)]
    exact h.last_eq

/-- Whether a text is a word: plain characters without blanks. -/
def isWord (text : Text) : Bool := text.all fun c => isPlain c && !Text.isBlank c

/-- A word is an expression. -/
theorem becomes_word (hcallee : Callable callee) (hne : text ≠ []) (h : isWord text = true) :
    Becomes callee change text text := by
  have hword {c : Char} (hc : c ∈ text) : isPlain c = true ∧ Text.isBlank c = false := by
    simpa using List.all_eq_true.1 h c hc
  have hfeed : '\n' ∉ text := fun hmem => absurd (hword hmem).2 (by decide)
  have hopen : '(' ∉ text := fun hmem => absurd (hword hmem).1 (by decide)
  have hplain : text.all isPlain = true := List.all_eq_true.2 fun _ hc => (hword hc).1
  obtain ⟨first, more, hcons⟩ := List.exists_cons_of_ne_nil hne
  have hfirst : text.head? = some first := by
    rw [hcons]
    rfl
  obtain ⟨last, hlast⟩ := Option.isSome_iff_exists.1 (List.getLast?_isSome.2 hne)
  refine ⟨fun times before rest _ hparted hrest => ?_, through_plain hplain 0,
    ⟨first, hfirst, (hword (List.mem_of_mem_head? hfirst)).2⟩,
    ⟨last, hlast, (hword (List.mem_of_getLast? hlast)).2⟩, rfl⟩
  rw [shifted_eq_self hfeed, replaced_word hcallee.ne_nil hopen hparted hrest, hlast]
  rfl

/-- A quoted text in which the name of the function does not stand is an
expression. -/
theorem becomes_quote (hcallee : Callable callee) (h : ¬callee <:+: text) :
    Becomes callee change (Text.quote text) (Text.quote text) := by
  have hlast : (Text.quote text).getLast? = some '\'' := by
    rw [Text.quote, ← List.cons_append, List.getLast?_concat]
  have hlacks : ¬callee <:+: Text.quote text :=
    Text.lacks_quote hcallee.ne_nil (hcallee.not_mem rfl) (hcallee.not_mem rfl) h
  have hseam : Seam callee (Text.quote text) := ⟨hlacks, '\'', hlast, rfl, by decide⟩
  exact ⟨fun times before rest _ _ _ => hseam.replaced hcallee times before rest,
    through_quote text 0, ⟨'\'', rfl, rfl⟩, ⟨'\'', hlast, rfl⟩, rfl⟩

/-- Fixed text that starts with a character none of a callee, and not with an
opening bracket, ends expressions. -/
theorem Seam.joint (h : Seam callee fixed) (hcallee : Callable callee) {first : Char}
    (hfirst : fixed.head? = some first) (hstarts : startsName (some first) = true)
    (hopen : first ≠ '(') (hreturn : first ≠ '\r') : Joint callee fixed where
  toSeam := h
  parted times rest := by
    refine Text.parted_of_head ?_ (hcallee.not_mem hstarts)
    rw [List.head?_append, head?_shifted hfirst hreturn]
    rfl
  closed := ⟨first, hfirst, hopen, hreturn⟩

/-- Text without any character of a name is a seam, and ends expressions
unless it starts with an opening bracket. -/
theorem Callable.seam (hcallee : Callable callee) {last : Char} (hlast : fixed.getLast? = some last)
    (hfeed : last ≠ '\n') (hreturn : last ≠ '\r')
    (h : fixed.all (fun c => startsName (some c)) = true) : Seam callee fixed := by
  have hstarts {c : Char} (hc : c ∈ fixed) : startsName (some c) = true :=
    List.all_eq_true.1 h c hc
  refine ⟨fun hinside => ?_, last, hlast, hstarts (List.mem_of_getLast? hlast), hfeed, hreturn⟩
  obtain ⟨c, more, hcons⟩ := List.exists_cons_of_ne_nil hcallee.ne_nil
  have hmem : c ∈ callee := hcons ▸ List.mem_cons_self
  exact hcallee.not_mem (hstarts (hinside.subset hmem)) hmem

/-- A comma and a blank end expressions. -/
theorem Callable.comma (hcallee : Callable callee) : Joint callee (", " : Text) :=
  Seam.joint (hcallee.seam rfl (by decide) (by decide) rfl) hcallee rfl rfl
    (by decide) (by decide)

/-- Expressions with commas between them, behind woven code. -/
theorem Woven.commas (h : Woven callee change depth text new) (hcallee : Callable callee)
    {items changes : List Text} (hitems : List.Forall₂ (Becomes callee change) items changes)
    (hcomma : Calls.through (.code depth) ", " = some (.code depth)) (hjoint : Joint callee fixed)
    (hthrough : Calls.through (.code depth) fixed = some (.code depth')) :
    Woven callee change depth' (text ++ (Dialect.commas items ++ fixed))
      (new ++ (Dialect.commas changes ++ fixed)) := by
  have hstep (first second : Text) (more : List Text) :
      Dialect.commas (first :: second :: more) =
        (first ++ ", ") ++ Dialect.commas (second :: more) := by
    rw [Dialect.commas, Text.joinWith_cons_cons, List.append_assoc]
    rfl
  induction hitems generalizing text new with
  | nil => exact h.seam hcallee hjoint.toSeam hthrough
  | @cons item changed items changes hitem hrest ih =>
    cases hrest with
    | nil =>
      have hsingle (item : Text) : Dialect.commas [item] = item := Text.joinWith_singleton _ item
      rw [hsingle, hsingle]
      exact h.join hcallee hitem hjoint hthrough
    | cons hnext hmore =>
      have hwoven := ih (h.join hcallee hitem hcallee.comma hcomma)
      rw [hstep, hstep]
      simpa only [List.append_assoc] using hwoven

end Calls

end InterfaceSchema
