import InterfaceSchema.Proofs.Dialect.Congruence
import InterfaceSchema.Proofs.Fixup.Rewriting

/-!
# Framed expressions

A dialect writes most of its expressions as fixed text around other
expressions: one, several with commas between them, or the entries of an
object. Whether two fixed texts can stand around expressions is decided by
looking at them. Names and literals are the expressions in which no other
stands.
-/

namespace InterfaceSchema

namespace Dialect

/-- An operation that makes related texts of related ones does so for a row of
them. -/
theorem related_chain {R : Text → Text → Prop} {join join' : Text → Text → Text}
    (hjoin : ∀ {left left' right right'}, R left left' → R right right' →
      R (join left right) (join' left' right'))
    {parts parts' : List Text} (hne : parts ≠ []) (h : List.Forall₂ R parts parts') :
    R (chain join parts) (chain join' parts') := by
  cases h with
  | nil => exact absurd rfl hne
  | @cons first first' rest rest' hfirst hrest =>
    rw [chain, chain]
    clear hne
    induction hrest generalizing first first' with
    | nil => exact hfirst
    | cons hnext _ ih => exact ih (hjoin hfirst hnext)

end Dialect

namespace Calls

open Layout Dialect

variable {callee : Text} {change : List Text → Option Text}
  {item changed second second' name opening middle closing fixed : Text} {items changes : List Text}

/-- A name is an expression. -/
theorem becomes_name (hcallee : Callable callee) (hname : name.IsNamed) :
    Becomes callee change name name :=
  becomes_word hcallee hname.1 (List.all_eq_true.2 fun c hc => by
    have hnamed := hname.2 c hc
    rw [isPlain_of_named hnamed, isBlank_of_named hnamed]
    rfl)

/-- A literal is an expression. -/
theorem becomes_literalValue (hcallee : Callable callee) (hmark : callee ∈ Text.marks)
    {literal : Literal} (h : literal.WellSpelled) :
    Becomes callee change (literalValue literal) (literalValue literal) := by
  cases literal with
  | string value => exact becomes_quote hcallee (h callee hmark)
  | number spelling =>
    refine becomes_word hcallee h.1 (List.all_eq_true.2 fun c hc => ?_)
    obtain ⟨hplain, hblank⟩ := isPlain_of_isNumeral (h.2 c hc)
    rw [hplain, hblank]
    rfl
  | boolean value =>
    cases value
    · exact becomes_word hcallee (by decide) rfl
    · exact becomes_word hcallee (by decide) rfl

/-- A property key can stand before an expression. -/
theorem keyText_propertyKey (hcallee : Callable callee) (h : ¬callee <:+: name) :
    KeyText callee (Text.propertyKey name) := by
  refine ⟨Text.lacks_propertyKey hcallee.ne_nil (hcallee.not_mem rfl) (hcallee.not_mem rfl) h,
    fun depth => ?_⟩
  rw [Text.propertyKey]
  split
  · next hidentifier =>
    have hdotted := Text.isDotted_of_isIdentifier hidentifier
    exact through_plain (List.all_eq_true.2 fun c hc =>
      isPlain_of_named (Text.startsName_of_isDotted hdotted hc)) depth
  · exact through_quote name depth

/-- Whether a fixed text can end an expression and stand before another one. -/
def isJoint (callee fixed : Text) : Bool :=
  !Text.isInside callee fixed &&
    fixed.head?.any (fun c => startsName (some c) && c != '(' && c != '\r') &&
    fixed.getLast?.any (fun c => startsName (some c) && c != '\n' && c != '\r')

/-- A fixed text for which this is decided is a joint. -/
theorem joint_of_isJoint (hcallee : Callable callee) (h : isJoint callee fixed = true) :
    Joint callee fixed := by
  simp only [isJoint, Bool.and_eq_true, Bool.not_eq_true', Option.any_eq_true, bne_iff_ne] at h
  obtain ⟨⟨hlacks, ⟨c, hc, ⟨hstarts, hopen⟩, hreturn⟩⟩, ⟨d, hd, ⟨hstarts', hfeed'⟩, hreturn'⟩⟩ := h
  have hseam : Seam callee fixed :=
    ⟨Text.lacks_of_isInside hlacks, d, hd, hstarts', hfeed', hreturn'⟩
  exact hseam.joint hcallee hc hstarts hopen hreturn

/-- Whether fixed texts can stand around expressions, the first of them
leaving this many brackets open. -/
def isFrame (callee : Text) (depth : Nat) (opening closing : Text) : Bool :=
  !Text.isInside callee opening && isJoint callee closing &&
    opening.head?.any (fun c => !Text.isBlank c) &&
    opening.getLast?.any (fun c => startsName (some c) && c != '\n' && c != '\r') &&
    closing.getLast?.any (fun c => !Text.isBlank c) &&
    through (.code 0) opening == some (.code depth) &&
    through (.code depth) "," == some (.code depth) &&
    through (.code depth) closing == some (.code 0)

/-- Fixed texts that stand around expressions. -/
structure Frame (callee opening closing : Text) : Prop where
  seam : Seam callee opening
  joint : Joint callee closing
  through : ∃ depth, Calls.through (.code 0) opening = some (.code depth) ∧
    Calls.through (.code depth) "," = some (.code depth) ∧
    Calls.through (.code depth) closing = some (.code 0)
  first : ∃ c, opening.head? = some c ∧ Text.isBlank c = false
  last : ∃ c, closing.getLast? = some c ∧ Text.isBlank c = false

/-- Fixed texts for which this is decided stand around expressions. -/
theorem frame_of_isFrame {depth : Nat} (hcallee : Callable callee)
    (h : isFrame callee depth opening closing = true) : Frame callee opening closing := by
  simp only [isFrame, Bool.and_eq_true, Bool.not_eq_true', Option.any_eq_true, bne_iff_ne,
    beq_iff_eq] at h
  obtain ⟨⟨⟨⟨⟨⟨⟨hopening, hclosing⟩, hfirst⟩, ⟨c, hc, ⟨hstarts, hfeed⟩, hreturn⟩⟩, hlast⟩,
    hthrough⟩, hcomma⟩, hthrough'⟩ := h
  have hseam : Seam callee opening :=
    ⟨Text.lacks_of_isInside hopening, c, hc, hstarts, hfeed, hreturn⟩
  exact ⟨hseam, joint_of_isJoint hcallee hclosing, ⟨depth, hthrough, hcomma, hthrough'⟩, hfirst,
    hlast⟩

/-- The entries of an object are not empty and do not end with a line feed,
neither as they were nor as they become. -/
theorem EntryBecomes.lines {entries entries' : List Text}
    (h : List.Forall₂ (EntryBecomes callee change) entries entries') :
    (∀ entry ∈ entries, entry ≠ [] ∧ entry.getLast? ≠ some '\n') ∧
      ∀ entry ∈ entries', entry ≠ [] ∧ entry.getLast? ≠ some '\n' := by
  have hentry {entry entry' : Text} (h : EntryBecomes callee change entry entry') :
      (entry ≠ [] ∧ entry.getLast? ≠ some '\n') ∧ entry' ≠ [] ∧ entry'.getLast? ≠ some '\n' := by
    obtain ⟨key, item, changed, rfl, rfl, -, hitem⟩ := h
    obtain ⟨last, hlast, hstop⟩ := hitem.last
    have hline : some last ≠ some '\n' := fun hc => by
      rw [Option.some.inj hc] at hstop
      exact absurd hstop (by decide)
    refine ⟨⟨by simp, ?_⟩, by simp, ?_⟩
    · rw [List.getLast?_append, List.getLast?_append, hlast]
      exact hline
    · rw [List.getLast?_append, List.getLast?_append, hitem.last_eq, hlast]
      exact hline
  induction h with
  | nil => simp
  | cons hfirst _ ih =>
    obtain ⟨hold, hnew⟩ := hentry hfirst
    exact ⟨List.forall_mem_cons.2 ⟨hold, ih.1⟩, List.forall_mem_cons.2 ⟨hnew, ih.2⟩⟩

/-- The entries for related fields, if the expressions in them become each
other. -/
theorem forall₂_entries (hcallee : Callable callee) (hmark : callee ∈ Text.marks)
    {R : Text → Text → Prop} {expression : WrittenField → Text}
    {fields fields' : List WrittenField}
    (hfields : List.Forall₂ (WrittenField.Related R) fields fields')
    (h : ∀ field field', WrittenField.Related R field field' →
      Becomes callee change (expression field) (expression field')) :
    List.Forall₂ (EntryBecomes callee change) (entries expression fields)
      (entries expression fields') := by
  rw [entries, entries, List.forall₂_map_left_iff, List.forall₂_map_right_iff]
  refine hfields.imp fun field field' hfield => ?_
  obtain ⟨name, hname, hkey⟩ := hfield.key
  have hkey' : field'.key = field.key := by rw [hfield.eq]
  have htext : KeyText callee field.key := hkey ▸ keyText_propertyKey hcallee (hname callee hmark)
  exact ⟨field.key, _, _, rfl, by rw [hkey'], htext, h field field' hfield⟩

/-- Whether a fixed text is an expression by itself. -/
def isAlone (callee fixed : Text) : Bool :=
  !Text.isInside callee fixed && fixed.head?.any (fun c => !Text.isBlank c) &&
    fixed.getLast?.any (fun c => startsName (some c) && !Text.isBlank c) &&
    through (.code 0) fixed == some (.code 0)

/-- A fixed text for which this is decided is an expression. -/
theorem becomes_of_isAlone (hcallee : Callable callee) (h : isAlone callee fixed = true) :
    Becomes callee change fixed fixed := by
  simp only [isAlone, Bool.and_eq_true, Bool.not_eq_true', Option.any_eq_true,
    beq_iff_eq] at h
  obtain ⟨⟨⟨hlacks, hfirst⟩, ⟨c, hc, hstarts, hblank⟩⟩, hthrough⟩ := h
  have hline : c ≠ '\n' ∧ c ≠ '\r' := by
    constructor <;> rintro rfl <;> exact absurd hblank (by decide)
  have hseam : Seam callee fixed := ⟨Text.lacks_of_isInside hlacks, c, hc, hstarts, hline⟩
  exact (Woven.nil.seam hcallee hseam hthrough).becomes hfirst ⟨c, hc, hblank⟩

/-- An expression with a joint behind it. -/
theorem Becomes.follow (h : Becomes callee change item changed) (hcallee : Callable callee)
    (hjoint : Joint callee fixed) (hthrough : Calls.through (.code 0) fixed = some (.code 0))
    (hlast : ∃ c, fixed.getLast? = some c ∧ Text.isBlank c = false) :
    Becomes callee change (item ++ fixed) (changed ++ fixed) := by
  obtain ⟨first, hfirst, hstart⟩ := h.first
  obtain ⟨last, hlast, hstop⟩ := hlast
  refine (Woven.nil.join hcallee h hjoint hthrough).becomes ⟨first, ?_, hstart⟩ ⟨last, ?_, hstop⟩
  · rw [List.nil_append, List.head?_append, hfirst]
    rfl
  · rw [List.nil_append, List.getLast?_append, hlast]
    rfl

namespace Frame

/-- Woven code between the two texts of a frame is an expression. -/
theorem becomes (h : Frame callee opening closing) {text new : Text}
    (hwoven : Woven callee change 0 (opening ++ (text ++ closing)) (opening ++ (new ++ closing))) :
    Becomes callee change (opening ++ (text ++ closing)) (opening ++ (new ++ closing)) := by
  obtain ⟨first, hfirst, hstart⟩ := h.first
  obtain ⟨last, hlast, hstop⟩ := h.last
  refine hwoven.becomes ⟨first, ?_, hstart⟩ ⟨last, ?_, hstop⟩
  · rw [List.head?_append, hfirst]
    rfl
  · rw [List.getLast?_append, List.getLast?_append, hlast]
    rfl

/-- The first text of a frame is woven code, with brackets open behind it up to
the second. -/
theorem opened (h : Frame callee opening closing) (hcallee : Callable callee)
    (change : List Text → Option Text) :
    ∃ depth, Woven callee change depth opening opening ∧
      Calls.through (.code depth) "," = some (.code depth) ∧
      Calls.through (.code depth) ", " = some (.code depth) ∧
      Calls.through (.code depth) closing = some (.code 0) := by
  obtain ⟨depth, hthrough, hcomma, hthrough'⟩ := h.through
  have hsplit : (", " : Text) = "," ++ [' '] := rfl
  refine ⟨depth, Woven.nil.seam hcallee h.seam hthrough, hcomma, ?_, hthrough'⟩
  rw [hsplit, through_append, hcomma, Option.bind_some, through_plain rfl]

/-- An expression in a frame. -/
theorem wrap (h : Frame callee opening closing) (hcallee : Callable callee)
    (hitem : Becomes callee change item changed) :
    Becomes callee change (opening ++ item ++ closing) (opening ++ changed ++ closing) := by
  obtain ⟨depth, hopening, -, -, hthrough⟩ := h.opened hcallee change
  rw [List.append_assoc, List.append_assoc]
  exact h.becomes (hopening.join hcallee hitem h.joint hthrough)

/-- Two expressions in a frame, with text between them that starts with a
comma. -/
theorem pair (h : Frame callee opening closing) (hcallee : Callable callee)
    (hmiddle : Joint callee (',' :: middle)) (hplain : middle.all isPlain = true)
    (hitem : Becomes callee change item changed) (hsecond : Becomes callee change second second') :
    Becomes callee change (opening ++ item ++ (',' :: middle) ++ second ++ closing)
      (opening ++ changed ++ (',' :: middle) ++ second' ++ closing) := by
  obtain ⟨depth, hopening, hcomma, -, hthrough⟩ := h.opened hcallee change
  have hbetween : Calls.through (.code depth) (',' :: middle) = some (.code depth) := by
    have hsplit : ',' :: middle = "," ++ middle := rfl
    rw [hsplit, through_append, hcomma, Option.bind_some, through_plain hplain]
  have hfirst := hopening.join hcallee hitem hmiddle hbetween
  have hboth : Woven callee change 0 (opening ++ ((item ++ ((',' :: middle) ++ second)) ++ closing))
      (opening ++ ((changed ++ ((',' :: middle) ++ second')) ++ closing)) := by
    simpa only [List.append_assoc] using hfirst.join hcallee hsecond h.joint hthrough
  simpa only [List.append_assoc] using h.becomes hboth

/-- Several expressions in a frame. -/
theorem commas (h : Frame callee opening closing) (hcallee : Callable callee)
    (hitems : List.Forall₂ (Becomes callee change) items changes) :
    Becomes callee change (opening ++ Dialect.commas items ++ closing)
      (opening ++ Dialect.commas changes ++ closing) := by
  obtain ⟨depth, hopening, -, hblank, hthrough⟩ := h.opened hcallee change
  rw [List.append_assoc, List.append_assoc]
  exact h.becomes (hopening.commas hcallee hitems hblank h.joint hthrough)

/-- A block in a frame is laid out around its entries, which stand in it
shifted. -/
theorem block_eq (h : Frame callee opening closing) {entries : List Text}
    (hentries : ∀ entry ∈ entries, entry ≠ [] ∧ entry.getLast? ≠ some '\n') :
    Layout.block opening entries closing = opening ++ blockLines closing entries := by
  obtain ⟨last, hlast, hstop⟩ := h.last
  refine Layout.block_eq opening hentries ?_ ?_
  · rintro rfl
    cases hlast
  · rw [hlast]
    rintro hc
    rw [Option.some.inj hc] at hstop
    exact absurd hstop (by decide)

/-- A block in a frame is an expression if its entries hold expressions. -/
theorem block (h : Frame callee opening closing) (hcallee : Callable callee)
    {entries entries' : List Text}
    (hentries : List.Forall₂ (EntryBecomes callee change) entries entries') :
    Becomes callee change (Layout.block opening entries closing)
      (Layout.block opening entries' closing) := by
  obtain ⟨hlines, hlines'⟩ := EntryBecomes.lines hentries
  obtain ⟨depth, hopening, hcomma, -, hthrough⟩ := h.opened hcallee change
  have hwoven := hopening.block hcallee hentries hcomma h.joint.toSeam hthrough
  obtain ⟨before, hbefore⟩ := suffix_blockLines closing entries
  obtain ⟨before', hbefore'⟩ := suffix_blockLines closing entries'
  rw [h.block_eq hlines, h.block_eq hlines', ← hbefore, ← hbefore']
  rw [← hbefore, ← hbefore'] at hwoven
  exact h.becomes hwoven

end Frame

end Calls

end InterfaceSchema
