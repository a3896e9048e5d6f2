import InterfaceSchema.Proofs.Layout
import InterfaceSchema.Proofs.Text.Literals
import InterfaceSchema.Proofs.Text.Meaning

/-!
# Literals in nested code

A block breaks its entries into lines and indents them anew. Text that is part of a
line goes through this as it is, and so does a literal without line ends, however
often it is nested.
-/

namespace InterfaceSchema

namespace Layout

/-- A block around a place in one of its entries. -/
structure Frame where
  opening : Text
  before : List Text
  /-- What stands before the place in its entry. -/
  lead : Text
  /-- What stands behind the place in its entry. -/
  trail : Text
  after : List Text
  closing : Text

/-- The block with a text at its place. -/
def Frame.around (frame : Frame) (text : Text) : Text :=
  block frame.opening (frame.before ++ (frame.lead ++ (text ++ frame.trail)) :: frame.after)
    frame.closing

/-- A text in blocks, the outermost first. -/
def nest (frames : List Frame) (text : Text) : Text := frames.foldr Frame.around text

/-- A text that is part of a line. -/
def Inline (text : Text) : Prop := text ≠ [] ∧ Text.OneLine text

/-- Text that is part of a line is put between two others, whatever it is. -/
def Surrounds (place : Text → Text) : Prop :=
  ∃ front back, ∀ text, Inline text → place text = front ++ (text ++ back)

section Lines

/-- A character that ends no line is part of the first line. -/
theorem lines_cons {c : Char} {rest : Text} (hfeed : c ≠ '\n')
    (hreturn : c = '\r' → rest.head? ≠ some '\n') : Text.lines (c :: rest) =
      match Text.lines rest with
      | [] => [[c]]
      | line :: more => (c :: line) :: more := by
  refine Text.lines.eq_4 c rest hfeed fun more hc hrest => hreturn hc ?_
  rw [hrest]
  rfl

/-- The characters of a text without line ends. -/
theorem ne_of_oneLine {c : Char} {text : Text} (h : Text.OneLine text) (hc : c ∈ text) :
    c ≠ '\n' ∧ c ≠ '\r' := by
  have hline := h c hc
  constructor <;> rintro rfl <;> cases hline

/-- The lines from a part of a line on. -/
theorem exists_lines_append (trail : Text) : ∃ back more, ∀ text, Inline text →
    Text.lines (text ++ trail) = (text ++ back) :: more := by
  obtain ⟨back, more, htrail⟩ : ∃ back more, ∀ c, c ≠ '\n' → c ≠ '\r' →
      Text.lines (c :: trail) = (c :: back) :: more := by
    cases hlines : Text.lines trail with
    | nil =>
      refine ⟨[], [], fun c hfeed hreturn => ?_⟩
      rw [lines_cons hfeed fun hc => absurd hc hreturn, hlines]
    | cons line more =>
      refine ⟨line, more, fun c hfeed hreturn => ?_⟩
      rw [lines_cons hfeed fun hc => absurd hc hreturn, hlines]
  refine ⟨back, more, fun text htext => ?_⟩
  induction text with
  | nil => exact absurd rfl htext.1
  | cons c rest ih =>
    obtain ⟨-, hline⟩ := htext
    obtain ⟨hfeed, hreturn⟩ := ne_of_oneLine hline List.mem_cons_self
    by_cases hrest : rest = []
    · rw [hrest]
      exact htrail c hfeed hreturn
    · have hmore := ih ⟨hrest, fun d hd => hline d (List.mem_cons_of_mem _ hd)⟩
      rw [List.cons_append, lines_cons hfeed fun hc => absurd hc hreturn, hmore]
      rfl

/-- The lines of a text with a part of a line in it. -/
theorem exists_lines (lead trail : Text) : ∃ before front back more, ∀ text, Inline text →
    Text.lines (lead ++ (text ++ trail)) = before ++ (front ++ (text ++ back)) :: more := by
  induction lead with
  | nil =>
    obtain ⟨back, more, hlines⟩ := exists_lines_append trail
    exact ⟨[], [], back, more, hlines⟩
  | cons c rest ih =>
    obtain ⟨before, front, back, more, hlines⟩ := ih
    by_cases hfeed : c = '\n'
    · subst hfeed
      exact ⟨[] :: before, front, back, more, fun text htext =>
        congrArg ([] :: ·) (hlines text htext)⟩
    by_cases hreturn : c = '\r' ∧ rest.head? = some '\n'
    · -- the line feed behind the carriage return ends the same line
      obtain ⟨rfl, hhead⟩ := hreturn
      cases rest with
      | nil => cases hhead
      | cons d others =>
        cases hhead
        exact ⟨before, front, back, more, hlines⟩
    have hstep (text : Text) (htext : Inline text) :
        c = '\r' → (rest ++ (text ++ trail)).head? ≠ some '\n' := by
      intro hc hhead
      cases rest with
      | cons d others => exact hreturn ⟨hc, hhead⟩
      | nil =>
        obtain ⟨hne, hline⟩ := htext
        obtain ⟨d, others, rfl⟩ := List.exists_cons_of_ne_nil hne
        exact (ne_of_oneLine hline List.mem_cons_self).1 (Option.some.inj hhead)
    cases before with
    | nil =>
      refine ⟨[], c :: front, back, more, fun text htext => ?_⟩
      rw [List.cons_append, lines_cons hfeed (hstep text htext), hlines text htext]
      rfl
    | cons first others =>
      refine ⟨(c :: first) :: others, front, back, more, fun text htext => ?_⟩
      rw [List.cons_append, lines_cons hfeed (hstep text htext), hlines text htext]
      rfl

/-- Trimming does not go beyond a part of a line. -/
theorem trimNewlines_inline {text : Text} (htext : Inline text) (front back : Text) :
    Text.trimNewlines (front ++ (text ++ back)) = front ++ (text ++ Text.trimNewlines back) := by
  have hkept : (text.reverse ++ front.reverse).dropWhile (· == '\n') =
      text.reverse ++ front.reverse := by
    obtain ⟨hne, hline⟩ := htext
    obtain ⟨c, rest, hreverse⟩ := List.exists_cons_of_ne_nil (List.reverse_ne_nil_iff.2 hne)
    have hmem : c ∈ text := by
      rw [← List.mem_reverse, hreverse]
      exact List.mem_cons_self
    rw [hreverse, List.cons_append,
      List.dropWhile_cons_of_neg (by simpa using (ne_of_oneLine hline hmem).1)]
  have hreverse : (front ++ (text ++ back)).reverse =
      back.reverse ++ (text.reverse ++ front.reverse) := by simp
  rw [Text.trimNewlines, Text.trimNewlines, hreverse, List.dropWhile_append, hkept]
  split
  · next hempty =>
    rw [List.isEmpty_iff.1 hempty]
    simp
  · simp

end Lines

section Blocks

/-- An entry that others follow. -/
theorem separated_cons (entry : Text) {rest : List Text} (hne : rest ≠ []) :
    separated (entry :: rest) = (entry ++ [',']) :: separated rest := by
  obtain ⟨next, more, rfl⟩ := List.exists_cons_of_ne_nil hne
  rfl

/-- An entry with its comma among the other ones. -/
theorem exists_separated (before after : List Text) : ∃ front comma back, ∀ entry,
    separated (before ++ entry :: after) = front ++ (entry ++ comma) :: back := by
  induction before with
  | nil =>
    by_cases hafter : after = []
    · exact ⟨[], [], [], fun entry => by rw [hafter, List.append_nil]; rfl⟩
    · exact ⟨[], [','], separated after, fun entry => separated_cons entry hafter⟩
  | cons first rest ih =>
    obtain ⟨front, comma, back, hrest⟩ := ih
    refine ⟨(first ++ [',']) :: front, comma, back, fun entry => ?_⟩
    rw [List.cons_append, separated_cons first (by simp), hrest]
    rfl

/-- A block leaves a part of a line as it is. -/
theorem surrounds_around (frame : Frame) : Surrounds frame.around := by
  obtain ⟨opening, before, lead, trail, after, closing⟩ := frame
  obtain ⟨above, comma, below, hentries⟩ := exists_separated before after
  obtain ⟨first, front, back, last, hlines⟩ := exists_lines lead (trail ++ comma)
  refine ⟨Writer.marginLine .schema 0 opening ++
      ((above.flatMap Text.lines ++ first).flatMap (Writer.marginLine .schema 1) ++
        (Writer.margin .schema 1 ++ front)),
    Text.trimNewlines (back ++ ['\n'] ++ ((last ++ below.flatMap Text.lines).flatMap
      (Writer.marginLine .schema 1) ++ Writer.marginLine .schema 0 closing)),
    fun text htext => ?_⟩
  have hentry : Text.lines (lead ++ (text ++ trail) ++ comma) =
      first ++ (front ++ (text ++ back)) :: last := by
    rw [← hlines text htext]
    simp only [List.append_assoc]
  rw [← trimNewlines_inline htext, Frame.around, block, if_neg (by simp)]
  simp only [Writer.foldl_lines_eq, Writer.within_allLines_text, hentries, List.flatMap_append,
    List.flatMap_cons, hentry]
  simp [Writer.new, Writer.marginLine]

/-- However often it is nested, a part of a line is left as it is. -/
theorem surrounds_nest (frames : List Frame) : Surrounds (nest frames) := by
  induction frames with
  | nil => exact ⟨[], [], fun text _ => (List.append_nil text).symm⟩
  | cons frame inner ih =>
    obtain ⟨front, back, hinner⟩ := ih
    -- what stands around the text in the inner blocks is as well part of the entry
    obtain ⟨before, after, hframe⟩ := surrounds_around
      { frame with lead := frame.lead ++ front, trail := back ++ frame.trail }
    refine ⟨before, after, fun text htext => ?_⟩
    have hentry : frame.lead ++ (front ++ (text ++ back) ++ frame.trail) =
        frame.lead ++ front ++ (text ++ (back ++ frame.trail)) := by simp only [List.append_assoc]
    rw [← hframe text htext]
    calc nest (frame :: inner) text
        = frame.around (front ++ (text ++ back)) := congrArg frame.around (hinner text htext)
      _ = _ := by rw [Frame.around, hentry]; rfl

end Blocks

end Layout

namespace Text

section Quoted

variable {front : Text}

/-- In a literal, a reader goes through escaped text. -/
theorem Reading.through_escape (closed : List Text) (read value : Text) :
    Reading.through ⟨closed, .literal .single read⟩ (escape value) =
      ⟨closed, .literal .single (read ++ escape value)⟩ := by
  induction value generalizing read with
  | nil => rw [escape, List.append_nil]; rfl
  | cons c rest ih =>
    rw [escape]
    split
    · have hsteps : (Reading.step ⟨closed, .literal .single read⟩ '\\').step c =
          ⟨closed, .literal .single (read ++ ['\\', c])⟩ := by
        simp [Reading.step, quoteOf?]
      rw [Reading.through_cons, Reading.through_cons, hsteps, ih]
      simp
    · next hc =>
      obtain ⟨hslash, hquote⟩ := not_or.1 hc
      have hplain : quoteOf? c ≠ some .single := by
        unfold quoteOf?
        split <;> simp_all
      have hstep : Reading.step ⟨closed, .literal .single read⟩ c =
          ⟨closed, .literal .single (read ++ [c])⟩ := by
        simp only [Reading.step]
        rw [if_neg hplain, if_neg hslash]
      rw [Reading.through_cons, hstep, ih]
      simp

/-- Quoted text is one literal behind code in which all literals are closed. -/
theorem literals_quote (hfront : Balanced front) (value back : Text) :
    literals (front ++ (quote value ++ back)) =
      literals front ++ quote value :: literals back := by
  have hspot := hfront Reading.start rfl
  have hclosed : literals front = (Reading.start.through front).closed := by
    rw [literals, Reading.literals, hspot]
    exact List.append_nil _
  have hquote (closed : List Text) : Reading.through ⟨closed, .code⟩ (quote value) =
      ⟨closed ++ [quote value], .code⟩ := by
    have hopen : Reading.step ⟨closed, .code⟩ '\'' = ⟨closed, .literal .single ['\'']⟩ := rfl
    rw [quote, Reading.through_cons, hopen, Reading.through_append, Reading.through_escape]
    rfl
  rw [literals, Reading.through_append, Reading.through_append, hclosed]
  generalize Reading.start.through front = reading at hspot
  obtain ⟨closed, spot⟩ := reading
  cases hspot
  rw [hquote, Reading.literals_through rfl, List.append_assoc]
  rfl

end Quoted

end Text

/-- A string literal that is read and written stands for what it stood for, on one
line, exactly if its escapes are kept. However often a literal without line ends is
nested, it stands there as it is, between texts that do not depend on it, and is read
as that literal if those before it are closed. -/
theorem literal_kept_iff {literal : Text} {value : List Nat} (h : Text.StandsFor literal value)
    (frames : List Layout.Frame) :
    (Text.Kept literal ↔ Text.StandsFor (Text.quote (Text.unquote literal)) value ∧
      Text.OneLine (Text.quote (Text.unquote literal))) ∧
    ∃ front back, ∀ text, Text.OneLine (Text.quote text) →
      Layout.nest frames (Text.quote text) = front ++ (Text.quote text ++ back) ∧
      (Text.Balanced front → Text.literals (Layout.nest frames (Text.quote text)) =
        Text.literals front ++ Text.quote text :: Text.literals back) := by
  obtain ⟨front, back, hnest⟩ := Layout.surrounds_nest frames
  refine ⟨Text.kept_iff h, front, back, fun text hline => ?_⟩
  have hinline : Layout.Inline (Text.quote text) := ⟨List.cons_ne_nil _ _, hline⟩
  rw [hnest _ hinline]
  exact ⟨rfl, fun hfront => Text.literals_quote hfront text back⟩

/-- A literal between double quotes, with a single quote and a tab in it, and where it
stands in an object. -/
theorem literal_kept_iff_tab : Text.StandsFor "\"'\\t\"" [0x27, 0x9] ∧
    Text.quote (Text.unquote "\"'\\t\"") = "'\\'\t'" ∧
    Text.StandsFor "'\\'\t'" [0x27, 0x9] ∧ Text.OneLine "'\\'\t'" ∧
    Layout.nest [⟨"z.object(\x7b", [], "a: z.literal(", ")", ["b: z.string()"], "\x7d)"⟩]
      "'\\'\t'" = "z.object(\x7b\n  a: z.literal('\\'\t'),\n  b: z.string()\n\x7d)" := by
  have hliteral : Text.StandsFor "\"'\\t\"" [0x27, 0x9] :=
    ⟨'"', "'\\t".toList, .inr rfl, rfl, .plain (by decide) (by decide) (by decide) (by decide)
      (@Text.Means.escape _ ['t'] [] _ _ (.single rfl) .nil)⟩
  obtain ⟨hkept, -⟩ := literal_kept_iff hliteral []
  obtain ⟨hvalue, hline⟩ := hkept.1 (by decide)
  exact ⟨hliteral, rfl, hvalue, hline, by decide⟩

/-- A line feed that is written as an escape is read as one and written as it is, in
the middle of a literal. -/
theorem not_standsFor_of_lineFeed : ¬∀ literal value, Text.StandsFor literal value →
    Text.StandsFor (Text.quote (Text.unquote literal)) value ∧
      Text.OneLine (Text.quote (Text.unquote literal)) := by
  intro h
  have hliteral : Text.StandsFor "'a\\nb'" [0x61, 0xA, 0x62] :=
    ⟨'\'', "a\\nb".toList, .inl rfl, rfl, .plain (by decide) (by decide) (by decide) (by decide)
      (@Text.Means.escape _ ['n'] ['b'] _ _ (.single rfl)
        (.plain (by decide) (by decide) (by decide) (by decide) .nil))⟩
  obtain ⟨-, hline⟩ := h _ _ hliteral
  exact absurd hline (by decide)

end InterfaceSchema
