import InterfaceSchema.Proofs.Fixup.Weaving
import InterfaceSchema.Proofs.Text.Names

/-!
# Blocks and calls of expressions

A block of entries is woven like a row of expressions, its entries shifted. A
call becomes another expression if `change` says so for its arguments as they
have become, and stays a call of what is inside of it if `change` leaves it
alone.
-/

namespace InterfaceSchema.Calls

open Layout

variable {callee : Text} {change : List Text → Option Text} {text new item changed fixed : Text}
  {before : Option Char} {rest inside : Text} {found : List Text} {depth depth' : Nat}

/-- The key of an entry, which holds no call and no open bracket. -/
structure KeyText (callee key : Text) : Prop where
  lacks : ¬callee <:+: key
  through : ∀ depth, through (.code depth) key = some (.code depth)

/-- An entry of an object, and what it becomes: its value becomes another
one. -/
def EntryBecomes (callee : Text) (change : List Text → Option Text) (entry new : Text) : Prop :=
  ∃ key item changed, entry = key ++ (": " ++ item) ∧ new = key ++ (": " ++ changed) ∧
    KeyText callee key ∧ Becomes callee change item changed

/-- An entry and what it becomes, shifted: a seam and an expression. -/
theorem EntryBecomes.shift (h : EntryBecomes callee change item changed)
    (hcallee : Callable callee) :
    ∃ seam value value', Layout.shift item = seam ++ value ∧ Layout.shift changed = seam ++ value' ∧
      Seam callee ("\n  " ++ seam) ∧
      (∀ depth, Calls.through (.code depth) ("\n  " ++ seam) = some (.code depth)) ∧
      Becomes callee change value value' := by
  obtain ⟨key, value, value', rfl, rfl, hkey, hvalue⟩ := h
  have hcolon (value : Text) : Layout.shift (key ++ (": " ++ value)) =
      (Layout.shift key ++ ": ") ++ Layout.shift value := by
    have hfirm : Firm (": " : Text) := @firm_of_last _ ' ' rfl (by decide) (by decide)
    rw [shift_append fun _ => by simp, shift_append_firm hfirm, List.append_assoc]
    rfl
  refine ⟨Layout.shift key ++ ": ", Layout.shift value, Layout.shift value', hcolon value,
    hcolon value', ⟨?_, ' ', by rw [List.getLast?_append, List.getLast?_append]; rfl, rfl,
      by decide, by decide⟩, fun depth => ?_, hvalue.shift⟩
  · have hline : Seam callee ("\n  " : Text) :=
      hcallee.seam rfl (by decide) (by decide) rfl
    have hmark : Seam callee (": " : Text) :=
      hcallee.seam rfl (by decide) (by decide) rfl
    have hshift : ¬callee <:+: Layout.shift key := hcallee.lacks_shifted hkey.lacks 1
    exact Text.lacks_append_of_last hline.lacks
      (Text.lacks_append hshift hmark.lacks (Text.parted_of_head rfl (hcallee.not_mem rfl))) rfl
      (hcallee.not_mem rfl)
  · rw [through_append, through_plain rfl, Option.bind_some, through_append,
      @through_shift (.code depth) trivial, hkey.through, Option.bind_some,
      through_plain rfl]

/-- A block behind woven code. -/
theorem Woven.block (h : Woven callee change depth text new) (hcallee : Callable callee)
    {entries changes : List Text}
    (hentries : List.Forall₂ (EntryBecomes callee change) entries changes)
    (hcomma : Calls.through (.code depth) "," = some (.code depth)) (hseam : Seam callee fixed)
    (hthrough : Calls.through (.code depth) fixed = some (.code depth')) :
    Woven callee change depth' (text ++ blockLines fixed entries)
      (new ++ blockLines fixed changes) := by
  have hcomma_joint : Joint callee ("," : Text) :=
    Seam.joint (hcallee.seam rfl (by decide) (by decide) rfl) hcallee rfl rfl
      (by decide) (by decide)
  have hline : Seam callee ("\n" ++ fixed) := by
    obtain ⟨c, hlast, hends⟩ := hseam.last
    refine ⟨?_, c, by rw [List.getLast?_append, hlast]; rfl, hends⟩
    have hfeed : ¬callee <:+: ("\n" : Text) := fun hinside => by
      obtain ⟨d, more, hcons⟩ := List.exists_cons_of_ne_nil hcallee.ne_nil
      have hmem : d ∈ callee := hcons ▸ List.mem_cons_self
      exact hcallee.not_mem rfl (List.mem_singleton.1 (hinside.subset hmem) ▸ hmem)
    exact Text.lacks_append_of_last hfeed hseam.lacks rfl (hcallee.not_mem rfl)
  have hclosing_joint : Joint callee ("\n" ++ fixed) :=
    hline.joint hcallee rfl rfl (by decide) (by decide)
  have hclosing_through : Calls.through (.code depth) ("\n" ++ fixed) = some (.code depth') := by
    rw [through_append, through_plain rfl]
    exact hthrough
  have hsingle (entry : Text) : blockLines fixed [entry] =
      "\n  " ++ (Layout.shift entry ++ ("\n" ++ fixed)) := rfl
  have hstep (first second : Text) (more : List Text) :
      blockLines fixed (first :: second :: more) =
        "\n  " ++ (Layout.shift first ++ ("," ++ blockLines fixed (second :: more))) := rfl
  induction hentries generalizing text new with
  | nil => exact h.seam hcallee hseam hthrough
  | @cons entry change' entries changes hentry hrest ih =>
    obtain ⟨seam, value, value', hshift, hshift', hseam', hthrough', hvalue⟩ := hentry.shift hcallee
    have hwoven := h.seam hcallee hseam' (hthrough' depth)
    cases hrest with
    | nil =>
      have hlast := hwoven.join hcallee hvalue hclosing_joint hclosing_through
      rw [hsingle, hsingle, hshift, hshift']
      simpa only [List.append_assoc] using hlast
    | cons hnext hmore =>
      have hmore := ih (hwoven.join hcallee hvalue hcomma_joint hcomma)
      rw [hstep, hstep, hshift, hshift']
      simpa only [List.append_assoc] using hmore

/-- A call of a function, given what stands between its brackets. -/
def callOf (callee inside : Text) : Text := callee ++ ('(' :: (inside ++ [')']))

/-- A call is shifted like what is inside of it. -/
theorem shifted_callOf (hcallee : Callable callee) (hfirm : Firm inside) (times : Nat) :
    shifted times (callOf callee inside) = callOf callee (shifted times inside) := by
  have hname : Firm callee := fun c hc => by
    have hnamed := hcallee.named (List.mem_of_getLast? hc)
    constructor <;> rintro rfl <;> exact absurd hnamed (by decide)
  have hopen : Firm ['('] := @firm_of_last _ '(' rfl (by decide) (by decide)
  have hself : shifted times callee = callee :=
    shifted_eq_self (hcallee.not_mem rfl) times
  have hopen_self : shifted times ['('] = ['('] := shifted_eq_self (by decide) times
  have hclose_self : shifted times [')'] = [')'] := shifted_eq_self (by decide) times
  have hbrackets : callOf callee inside = callee ++ (['('] ++ (inside ++ [')'])) := rfl
  rw [hbrackets, shifted_append hname, shifted_append hopen, shifted_append hfirm, hself,
    hopen_self, hclose_self]
  rfl

/-- A call is replaced. -/
theorem replaced_callOf (hcallee : Callable callee) (hbefore : startsName before = true)
    (hpieces : pieces (.code 0) (inside ++ ')' :: rest) = some (found, rest)) :
    replaced callee change before (callOf callee inside ++ rest) =
      replacedCall callee change found ++ replaced callee change (some ')') rest := by
  have hopen : openCall? before ('(' :: (inside ++ ')' :: rest)) = some (found, rest) := by
    rw [openCall?, if_pos hbefore, hpieces]
  have hcall : callOf callee inside ++ rest = callee ++ ('(' :: (inside ++ ')' :: rest)) := by
    simp [callOf]
  rw [hcall, replaced_call hcallee.ne_nil hopen]

/-- A call becomes what is made of its pieces. -/
theorem becomes_callOf (hcallee : Callable callee) (hfirm : Firm inside)
    (hthrough : through (.code 1) inside = some (.code 1))
    (hpieces : ∀ times rest, ∃ found,
      pieces (.code 0) (shifted times inside ++ ')' :: rest) = some (found, rest) ∧
        replacedCall callee change found = shifted times new)
    (hlast : new.getLast? = some ')') :
    Becomes callee change (callOf callee inside) new := by
  obtain ⟨first, more, hcons⟩ := List.exists_cons_of_ne_nil hcallee.ne_nil
  have hfirst : first ∈ callee := hcons ▸ List.mem_cons_self
  have hend : (callOf callee inside).getLast? = some ')' := by
    rw [callOf, ← List.cons_append, ← List.append_assoc, List.getLast?_concat]
  refine ⟨fun times before rest hbefore _ _ => ?_, ?_, ⟨first, ?_, isBlank_of_named
    (hcallee.named hfirst)⟩, ⟨')', hend, by decide⟩, hlast.trans hend.symm⟩
  · obtain ⟨found, hfound, hcall⟩ := hpieces times rest
    rw [shifted_callOf hcallee hfirm, replaced_callOf hcallee hbefore hfound, hcall, hend]
  · have hplain : callee.all isPlain = true :=
      List.all_eq_true.2 fun c hc => isPlain_of_named (hcallee.named hc)
    have hname := through_plain hplain 0
    rw [callOf, through_append, hname, Option.bind_some, through, if_neg (by simp)]
    have hopen : Place.next (.code 0) '(' = .code 1 := rfl
    rw [hopen, through_append, hthrough]
    rfl
  · rw [callOf, hcons]
    rfl

/-- An argument is trimmed to itself. -/
theorem Becomes.trim (h : Becomes callee change item changed) (times : Nat) :
    Text.trim (shifted times item) = shifted times item ∧ shifted times item ≠ [] := by
  obtain ⟨first, hfirst, hstart⟩ := h.first
  obtain ⟨last, hlast, hstop⟩ := h.last
  have hreturn : first ≠ '\r' := by
    rintro rfl
    exact absurd hstart (by decide)
  have hhead := head?_shifted hfirst hreturn times
  have hend := (getLast?_shifted h.firm times).trans hlast
  refine ⟨Text.trim_eq_self hhead hend hstart hstop, fun hnil => ?_⟩
  rw [hnil] at hhead
  cases hhead

/-- An argument by itself becomes what it becomes. -/
theorem Becomes.alone (h : Becomes callee change item changed) (times : Nat) :
    Calls.replaced callee change none (shifted times item) = shifted times changed := by
  have hparted : Text.Parted callee [] := fun part _ hne hlead =>
    hne (List.prefix_nil.1 hlead)
  have halone := h.replaced times none [] rfl hparted (by simp)
  rwa [replaced_nil, List.append_nil, List.append_nil] at halone

/-- A single argument and what it becomes. -/
theorem Becomes.arguments (h : Becomes callee change item changed) (times : Nat) :
    (argumentsOf [shifted times item]).map (Calls.replaced callee change none) =
      [shifted times changed] := by
  obtain ⟨htrim, hne⟩ := h.trim times
  have harguments : argumentsOf [shifted times item] = [shifted times item] := by
    simp [argumentsOf, htrim, hne]
  rw [harguments, List.map_singleton, h.alone]

/-- Two arguments, a blank before the second, and what they become. -/
theorem Becomes.arguments_pair {second second' : Text} (h : Becomes callee change item changed)
    (hsecond : Becomes callee change second second') (times : Nat) :
    (argumentsOf [shifted times item, ' ' :: shifted times second]).map
        (Calls.replaced callee change none) = [shifted times changed, shifted times second'] := by
  obtain ⟨htrim, -⟩ := h.trim times
  obtain ⟨htrim', hne⟩ := hsecond.trim times
  have hblank : Text.trim (' ' :: shifted times second) = shifted times second := htrim'
  have harguments : argumentsOf [shifted times item, ' ' :: shifted times second] =
      [shifted times item, shifted times second] := by
    simp [argumentsOf, htrim, hblank, hne]
  rw [harguments, List.map_cons, List.map_singleton, h.alone, hsecond.alone]

/-- The pieces of a single argument. -/
theorem Becomes.pieces (h : Becomes callee change item changed) (times : Nat) (rest : Text) :
    Calls.pieces (.code 0) (shifted times item ++ ')' :: rest) =
      some ([shifted times item], rest) := by
  refine pieces_single ?_ rest
  rw [@through_shifted (.code 0) trivial, h.through]

/-- The pieces of two arguments. -/
theorem Becomes.pieces_pair {second second' : Text} (h : Becomes callee change item changed)
    (hsecond : Becomes callee change second second') (times : Nat) (rest : Text) :
    Calls.pieces (.code 0) (shifted times (item ++ (", " ++ second)) ++ ')' :: rest) =
      some ([shifted times item, ' ' :: shifted times second], rest) := by
  have hfirst : Calls.through (.code 0) (shifted times item) = some (.code 0) := by
    rw [@through_shifted (.code 0) trivial, h.through]
  have hblank : Calls.through (.code 0) (' ' :: shifted times second) = some (.code 0) := by
    rw [← hsecond.through, ← @through_shifted (.code 0) trivial times second]
    rfl
  rw [shifted_pair h.firm, List.append_assoc, List.append_assoc]
  exact Calls.pieces_pair hfirst hblank rest

/-- A call with one argument becomes what `change` makes of what the argument
becomes. -/
theorem Becomes.call (h : Becomes callee change item changed) (hcallee : Callable callee)
    (hchange : ∀ times, change [shifted times changed] = some (shifted times new))
    (hlast : new.getLast? = some ')') : Becomes callee change (callOf callee item) new := by
  refine becomes_callOf hcallee h.firm (h.through_at 1) (fun times rest => ?_) hlast
  refine ⟨_, h.pieces times rest, ?_⟩
  rw [replacedCall, h.arguments, hchange]
  rfl

/-- A call with one argument that `change` leaves alone stays one. -/
theorem Becomes.call_stays (h : Becomes callee change item changed) (hcallee : Callable callee)
    (hchange : ∀ times, change [shifted times changed] = none) :
    Becomes callee change (callOf callee item) (callOf callee changed) := by
  have hlast : (callOf callee changed).getLast? = some ')' := by
    rw [callOf, ← List.cons_append, ← List.append_assoc, List.getLast?_concat]
  refine becomes_callOf hcallee h.firm (h.through_at 1) (fun times rest => ?_) hlast
  refine ⟨_, h.pieces times rest, ?_⟩
  rw [replacedCall, h.arguments, hchange, Text.joinWith_singleton, h.alone,
    shifted_callOf hcallee (firm_of_eq h.firm h.last_eq)]
  rfl

/-- Two arguments are firm. -/
theorem Becomes.firm_pair {second second' : Text} (h : Becomes callee change second second')
    (item : Text) : Firm (item ++ (", " ++ second)) := by
  obtain ⟨c, hlast, -⟩ := h.last
  refine firm_of_eq h.firm ?_
  rw [List.getLast?_append, List.getLast?_append, hlast]
  rfl

/-- A scan of code goes through two arguments. -/
theorem Becomes.through_pair {second second' : Text} (h : Becomes callee change item changed)
    (hsecond : Becomes callee change second second') :
    Calls.through (.code 1) (item ++ (", " ++ second)) = some (.code 1) := by
  have hcomma : Calls.through (.code 1) ", " = some (.code 1) := rfl
  rw [through_append, h.through_at 1, Option.bind_some, through_append, hcomma, Option.bind_some,
    hsecond.through_at 1]

/-- Two arguments by themselves become what they become. -/
theorem Becomes.alone_pair {second second' : Text} (h : Becomes callee change item changed)
    (hsecond : Becomes callee change second second') (hcallee : Callable callee) (times : Nat) :
    Calls.replaced callee change none (shifted times item ++ (", " ++ shifted times second)) =
      shifted times changed ++ (", " ++ shifted times second') := by
  have hcomma := hcallee.comma
  have hseam := @Seam.replaced callee change _ hcomma.toSeam hcallee 0
  have hparted := hcomma.parted 0 (shifted times second)
  have hself : shifted 0 (", " : Text) = ", " := rfl
  rw [hself] at hseam hparted
  have hopen : (", " ++ shifted times second : Text).head? ≠ some '(' := fun hhead =>
    absurd (Option.some.inj hhead) (by decide)
  rw [h.replaced times none _ rfl hparted hopen, hseam]
  have hend : Text.Parted callee [] := fun part _ hne hlead =>
    hne (List.prefix_nil.1 hlead)
  have hlast := hsecond.replaced times (", " : Text).getLast? [] rfl hend (by simp)
  rw [replaced_nil, List.append_nil, List.append_nil] at hlast
  rw [hlast]

/-- A call with two arguments becomes what `change` makes of what the
arguments become. -/
theorem Becomes.call_pair {second second' : Text} (h : Becomes callee change item changed)
    (hsecond : Becomes callee change second second') (hcallee : Callable callee)
    (hchange : ∀ times,
      change [shifted times changed, shifted times second'] = some (shifted times new))
    (hlast : new.getLast? = some ')') :
    Becomes callee change (callOf callee (item ++ (", " ++ second))) new := by
  refine becomes_callOf hcallee (hsecond.firm_pair item) (h.through_pair hsecond)
    (fun times rest => ?_) hlast
  refine ⟨_, h.pieces_pair hsecond times rest, ?_⟩
  rw [replacedCall, h.arguments_pair hsecond, hchange]
  rfl

/-- A call with two arguments that `change` leaves alone stays one. -/
theorem Becomes.call_pair_stays {second second' : Text} (h : Becomes callee change item changed)
    (hsecond : Becomes callee change second second') (hcallee : Callable callee)
    (hchange : ∀ times, change [shifted times changed, shifted times second'] = none) :
    Becomes callee change (callOf callee (item ++ (", " ++ second)))
      (callOf callee (changed ++ (", " ++ second'))) := by
  have hlast : (callOf callee (changed ++ (", " ++ second'))).getLast? = some ')' := by
    rw [callOf, ← List.cons_append, ← List.append_assoc, List.getLast?_concat]
  have hfirm : Firm (changed ++ (", " ++ second')) := by
    obtain ⟨c, hc, -⟩ := hsecond.last
    refine firm_of_eq hsecond.firm ?_
    rw [List.getLast?_append, List.getLast?_append, hsecond.last_eq, hc]
    rfl
  refine becomes_callOf hcallee (hsecond.firm_pair item) (h.through_pair hsecond)
    (fun times rest => ?_) hlast
  refine ⟨_, h.pieces_pair hsecond times rest, ?_⟩
  have hjoin : Text.joinWith "," [shifted times item, ' ' :: shifted times second] =
      shifted times item ++ (", " ++ shifted times second) := by
    rw [Text.joinWith_cons_cons, Text.joinWith_singleton]
    rfl
  rw [replacedCall, h.arguments_pair hsecond, hchange, hjoin, h.alone_pair hsecond hcallee,
    shifted_callOf hcallee hfirm, shifted_pair (firm_of_eq h.firm h.last_eq)]
  rfl

end InterfaceSchema.Calls
