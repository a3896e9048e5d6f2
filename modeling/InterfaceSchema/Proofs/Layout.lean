import InterfaceSchema.Layout

/-!
# What a writer writes

The text of a writer after any number of lines, and the text between the
opening and closing line of a body. Writing never changes the indentation, so
what a body adds depends on its level alone. A block is its entries, each
shifted to the right as a whole, between two lines.
-/

namespace InterfaceSchema

namespace Writer

/-- A line with the margin of a level before it. -/
def marginLine (indent : Indent) (level : Nat) (content : Text) : Text :=
  margin indent level ++ (content ++ ['\n'])

/-- Further lines leave the indentation alone and follow the text so far. -/
theorem allLines_eq (w : Writer) (contents : List Text) :
    w.allLines contents =
      { w with text := w.text ++ contents.flatMap (marginLine w.indent w.level) } := by
  induction contents generalizing w with
  | nil => simp [allLines]
  | cons content rest ih =>
    have hstep : w.allLines (content :: rest) = (w.line content).allLines rest := rfl
    rw [hstep, ih]
    simp [line, marginLine]

/-- Several groups of lines are written like their concatenation. -/
theorem foldl_allLines_eq (w : Writer) (groups : List (List Text)) :
    groups.foldl allLines w = w.allLines groups.flatten := by
  induction groups generalizing w with
  | nil => simp [allLines]
  | cons group rest ih =>
    rw [List.foldl_cons, ih, List.flatten_cons]
    simp [allLines]

/-- The lines of several texts are written like those of one text. -/
theorem foldl_lines_eq (w : Writer) (entries : List Text) :
    entries.foldl (fun w entry => w.allLines (Text.lines entry)) w =
      w.allLines (entries.flatMap Text.lines) := by
  rw [List.flatMap_def, ← foldl_allLines_eq, List.foldl_map]

/-- Lines between an opening and a closing line stand one level deeper. -/
theorem within_allLines_text (w : Writer) (opening closing : Text) (contents : List Text) :
    (w.within opening closing fun inner => inner.allLines contents).text =
      w.text ++ (marginLine w.indent w.level opening ++
        (contents.flatMap (marginLine w.indent (w.level + 1)) ++
          marginLine w.indent w.level closing)) := by
  simp [within, allLines_eq, line, deeper, back, marginLine]

end Writer

namespace Layout

/-- A text of which every line but the first stands two columns further right.
Line ends become line feeds. -/
def shift : Text → Text
  | [] => []
  | '\n' :: rest => '\n' :: ' ' :: ' ' :: shift rest
  | '\r' :: '\n' :: rest => '\n' :: ' ' :: ' ' :: shift rest
  | c :: rest => c :: shift rest

/-- The entries of a block, each on lines of its own, and its closing line.
Nothing stands between the lines of a block without entries. -/
def blockLines (closing : Text) : List Text → Text
  | [] => closing
  | [entry] => "\n  " ++ (shift entry ++ ("\n" ++ closing))
  | entry :: rest => "\n  " ++ (shift entry ++ ("," ++ blockLines closing rest))

/-- A character that is no part of a line end is kept. -/
theorem shift_cons {c : Char} {rest : Text} (hfeed : c ≠ '\n')
    (hreturn : c = '\r' → rest.head? ≠ some '\n') : shift (c :: rest) = c :: shift rest := by
  rw [shift.eq_4]
  · exact hfeed
  · intro more hc hrest
    exact hreturn hc (by rw [hrest]; rfl)

/-- Shifting goes part by part, as long as no line end is torn apart. -/
theorem shift_append {first second : Text}
    (h : first.getLast? = some '\r' → second.head? ≠ some '\n') :
    shift (first ++ second) = shift first ++ shift second := by
  fun_induction shift first with
  | case1 => rfl
  | case2 rest ih =>
    have hrest : rest.getLast? = some '\r' → second.head? ≠ some '\n' := fun hlast => by
      refine h ?_
      rw [List.getLast?_cons, hlast]
      rfl
    rw [List.cons_append, shift, ih hrest]
    rfl
  | case3 rest ih =>
    have hrest : rest.getLast? = some '\r' → second.head? ≠ some '\n' := fun hlast => by
      refine h ?_
      rw [List.getLast?_cons, List.getLast?_cons, hlast]
      rfl
    rw [List.cons_append, List.cons_append, shift, ih hrest]
    rfl
  | case4 c rest hfeed hreturn ih =>
    have hrest : rest.getLast? = some '\r' → second.head? ≠ some '\n' := fun hlast => by
      refine h ?_
      rw [List.getLast?_cons, hlast]
      rfl
    rw [List.cons_append, shift_cons hfeed, ih hrest, List.cons_append]
    intro hc
    cases rest with
    | nil => exact h (by rw [hc]; rfl)
    | cons d more =>
      intro hd
      exact hreturn more hc (by rw [Option.some.inj hd])

/-- A text without line ends is not changed. -/
theorem shift_eq_self {text : Text} (hfeed : '\n' ∉ text) : shift text = text := by
  induction text with
  | nil => rfl
  | cons c rest ih =>
    rw [List.mem_cons, not_or] at hfeed
    rw [shift_cons (Ne.symm hfeed.1), ih hfeed.2]
    intro _ hhead
    exact hfeed.2 (List.mem_of_mem_head? hhead)

/-- The lines of a text, each with a margin before it, are the text shifted to
the right. -/
theorem flatMap_lines {text : Text} (hne : text ≠ []) (hlast : text.getLast? ≠ some '\n') :
    (Text.lines text).flatMap (Writer.marginLine .schema 1) =
      ' ' :: ' ' :: (shift text ++ ['\n']) := by
  have hmargin (line : Text) :
      Writer.marginLine .schema 1 line = ' ' :: ' ' :: (line ++ ['\n']) := rfl
  fun_induction shift text with
  | case1 => exact absurd rfl hne
  | case2 rest ih =>
    have hrest : rest ≠ [] := fun hnil => by simp [hnil] at hlast
    have hlast' : rest.getLast? ≠ some '\n' := fun h => by simp [List.getLast?_cons, h] at hlast
    rw [Text.lines, List.flatMap_cons, ih hrest hlast', hmargin]
    rfl
  | case3 rest ih =>
    have hrest : rest ≠ [] := fun hnil => by simp [hnil] at hlast
    have hlast' : rest.getLast? ≠ some '\n' := fun h => by simp [List.getLast?_cons, h] at hlast
    rw [Text.lines, List.flatMap_cons, ih hrest hlast', hmargin]
    rfl
  | case4 c rest hfeed hreturn ih =>
    rw [Text.lines.eq_4 c rest hfeed hreturn]
    by_cases hrest : rest = []
    · subst hrest
      rfl
    · have hlast' : rest.getLast? ≠ some '\n' := fun h => by simp [List.getLast?_cons, h] at hlast
      have hih := ih hrest hlast'
      split
      · next hlines =>
        rw [hlines] at hih
        cases hih
      · next line more hlines =>
        rw [hlines, List.flatMap_cons, hmargin] at hih
        rw [List.flatMap_cons, hmargin]
        simp only [List.cons_append, List.append_assoc, List.cons.injEq, true_and] at hih ⊢
        exact hih

/-- No line feed is taken from the end of a text that ends with another
character. -/
theorem trimNewlines_append {text : Text} (hlast : text.getLast? ≠ some '\n') :
    Text.trimNewlines (text ++ ['\n']) = text := by
  rw [Text.trimNewlines, List.reverse_append]
  cases hreverse : text.reverse with
  | nil =>
    obtain rfl := List.reverse_eq_nil_iff.1 hreverse
    rfl
  | cons c rest =>
    have htext : text = rest.reverse ++ [c] := by
      rw [← List.reverse_reverse text, hreverse, List.reverse_cons]
    have hc : c ≠ '\n' := by
      rintro rfl
      exact hlast (by rw [htext, List.getLast?_concat])
    simp [hc, htext]

/-- The lines of entries and the closing line, behind the opening line. -/
theorem flatMap_separated {entries : List Text} (hne : entries ≠ [])
    (hentries : ∀ entry ∈ entries, entry ≠ [] ∧ entry.getLast? ≠ some '\n') (closing : Text) :
    '\n' :: (((separated entries).flatMap Text.lines).flatMap (Writer.marginLine .schema 1) ++
      closing) = blockLines closing entries := by
  induction entries with
  | nil => exact absurd rfl hne
  | cons entry rest ih =>
    obtain ⟨hentry, hlast⟩ := hentries entry List.mem_cons_self
    cases rest with
    | nil =>
      have hlines := flatMap_lines hentry hlast
      simp only [separated, List.flatMap_cons, List.flatMap_nil, List.append_nil, hlines,
        List.append_assoc, List.cons_append]
      rfl
    | cons second more =>
      have hrest := ih (List.cons_ne_nil _ _) fun other hother =>
        hentries other (List.mem_cons_of_mem _ hother)
      have hcomma : entry ++ [','] ≠ [] := by simp
      have hcomma_last : (entry ++ [',']).getLast? ≠ some '\n' := by
        rw [List.getLast?_concat]
        decide
      have hshift : shift (entry ++ [',']) = shift entry ++ [','] := shift_append fun _ => by decide
      have hlines := flatMap_lines hcomma hcomma_last
      rw [hshift] at hlines
      rw [separated, List.flatMap_cons, List.flatMap_append, hlines, blockLines, ← hrest]
      · simp only [List.append_assoc, List.cons_append]
        rfl
      · simp
      · simp

/-- The lines of a block end with its closing line. -/
theorem suffix_blockLines (closing : Text) (entries : List Text) :
    closing <:+ blockLines closing entries := by
  fun_induction blockLines closing entries with
  | case1 => exact List.suffix_refl _
  | case2 entry =>
    exact (List.suffix_append _ closing).trans
      ((List.suffix_append _ _).trans (List.suffix_append _ _))
  | case3 entry rest hne ih =>
    exact ih.trans ((List.suffix_append _ _).trans
      ((List.suffix_append _ _).trans (List.suffix_append _ _)))

/-- A block is its opening line, its entries shifted to the right with commas
between them, and its closing line. -/
theorem block_eq (opening : Text) {entries : List Text} {closing : Text}
    (hentries : ∀ entry ∈ entries, entry ≠ [] ∧ entry.getLast? ≠ some '\n')
    (hclosing : closing ≠ []) (hlast : closing.getLast? ≠ some '\n') :
    block opening entries closing = opening ++ blockLines closing entries := by
  by_cases hne : entries = []
  · subst hne
    rfl
  · have hlines := flatMap_separated hne hentries closing
    have hend : (opening ++ blockLines closing entries).getLast? ≠ some '\n' := by
      obtain ⟨c, hc⟩ := Option.isSome_iff_exists.1 (List.getLast?_isSome.2 hclosing)
      rw [hc] at hlast
      rw [← hlines, List.getLast?_append, List.getLast?_cons, List.getLast?_append, hc]
      exact hlast
    rw [block, if_neg (by simpa using hne)]
    simp only [Writer.foldl_lines_eq, Writer.within_allLines_text]
    rw [← trimNewlines_append hend, ← hlines]
    simp [Writer.new, Writer.marginLine, Writer.margin]

end Layout

end InterfaceSchema
