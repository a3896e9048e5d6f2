import InterfaceSchema.Proofs.Layout

/-!
# Blocks only indent

The lines of a block are the opening line, those of its entries, each two columns further
right and with commas between the entries, and the closing line. Entries often hold blocks
in turn, which are broken into lines and indented anew at every level: in the end each line
is indented once for every block around it.
-/

namespace InterfaceSchema

namespace Text

/-- The characters of a line are characters of the text, and none is a line feed. -/
theorem mem_of_mem_lines {text line : Text} (hline : line ∈ lines text) {c : Char}
    (hc : c ∈ line) : c ∈ text ∧ c ≠ '\n' := by
  fun_induction lines text generalizing line with
  | case1 => cases hline
  | case2 rest ih =>
    obtain rfl | hrest := List.mem_cons.1 hline
    · cases hc
    · exact (ih hrest hc).imp_left (List.mem_cons_of_mem _)
  | case3 rest ih =>
    obtain rfl | hrest := List.mem_cons.1 hline
    · cases hc
    · exact (ih hrest hc).imp_left fun h => List.mem_cons_of_mem _ (List.mem_cons_of_mem _ h)
  | case4 d rest hfeed hreturn hnil ih =>
    obtain rfl := List.mem_singleton.1 hline
    obtain rfl := List.mem_singleton.1 hc
    exact ⟨List.mem_cons_self, hfeed⟩
  | case5 d rest hfeed hreturn first more hlines ih =>
    rw [hlines] at ih
    obtain rfl | hmore := List.mem_cons.1 hline
    · obtain rfl | hfirst := List.mem_cons.1 hc
      · exact ⟨List.mem_cons_self, hfeed⟩
      · exact (ih List.mem_cons_self hfirst).imp_left (List.mem_cons_of_mem _)
    · exact (ih (List.mem_cons_of_mem _ hmore) hc).imp_left (List.mem_cons_of_mem _)

/-- Without carriage returns, the lines of a text that does not end with a line feed are
what stands between its line feeds. -/
theorem lines_eq_splitOn {text : Text} (hne : text ≠ []) (hreturn : '\r' ∉ text)
    (hlast : text.getLast? ≠ some '\n') : lines text = text.splitOn '\n' := by
  fun_induction lines text with
  | case1 => exact absurd rfl hne
  | case2 rest ih =>
    have hrest : rest ≠ [] := by
      rintro rfl
      exact hlast rfl
    rw [List.getLast?_cons_of_ne_nil hrest] at hlast
    rw [ih hrest (fun h => hreturn (List.mem_cons_of_mem _ h)) hlast,
      List.splitOn_cons_eq_if_modifyHead, if_pos (by decide)]
  | case3 rest ih => exact absurd List.mem_cons_self hreturn
  | case4 c rest hfeed _ hnil ih =>
    by_cases hrest : rest = []
    · rw [hrest, List.splitOn_eq_singleton (by simpa using Ne.symm hfeed)]
    · rw [List.getLast?_cons_of_ne_nil hrest] at hlast
      rw [ih hrest (fun h => hreturn (List.mem_cons_of_mem _ h)) hlast] at hnil
      exact absurd hnil (List.splitOn_ne_nil _ _)
  | case5 c rest hfeed _ first more hlines ih =>
    have hrest : rest ≠ [] := by
      rintro rfl
      cases hlines
    rw [List.getLast?_cons_of_ne_nil hrest] at hlast
    rw [List.splitOn_cons_eq_if_modifyHead, if_neg (by simpa using hfeed),
      ← ih hrest (fun h => hreturn (List.mem_cons_of_mem _ h)) hlast, hlines]
    rfl

/-- Parts with a line feed behind each are the joined parts with one behind them. -/
theorem flatMap_feed {parts : List Text} (hne : parts ≠ []) :
    (parts.flatMap fun part => part ++ ['\n']) = joinWith ['\n'] parts ++ ['\n'] := by
  induction parts with
  | nil => exact absurd rfl hne
  | cons part rest ih =>
    cases rest with
    | nil => simp
    | cons next more =>
      rw [List.flatMap_cons, ih (List.cons_ne_nil _ _), joinWith_cons_cons]
      simp

end Text

namespace Layout

/-- A text that opens or closes a block: a line that is not empty. -/
structure IsLine (text : Text) : Prop where
  nonempty : text ≠ []
  unbroken : '\n' ∉ text

/-- A text that is a proper entry of a block. -/
structure IsEntry (text : Text) : Prop where
  nonempty : text ≠ []
  no_return : '\r' ∉ text
  /-- It does not end with a line feed. -/
  ends : text.getLast? ≠ some '\n'

/-- Whether a text is a line can be decided. -/
instance (text : Text) : Decidable (IsLine text) :=
  decidable_of_iff (text ≠ [] ∧ '\n' ∉ text) ⟨fun ⟨h, h'⟩ => ⟨h, h'⟩, fun ⟨h, h'⟩ => ⟨h, h'⟩⟩

/-- Whether a text is a proper entry can be decided. -/
instance (text : Text) : Decidable (IsEntry text) :=
  decidable_of_iff (text ≠ [] ∧ '\r' ∉ text ∧ text.getLast? ≠ some '\n')
    ⟨fun ⟨h, h', h''⟩ => ⟨h, h', h''⟩, fun ⟨h, h', h''⟩ => ⟨h, h', h''⟩⟩

/-- A line, and how many blocks stand around it. -/
structure Line where
  level : Nat
  content : Text
deriving DecidableEq, Repr

namespace Line

/-- The line as it stands in the code, behind two blanks for each block around it. -/
def written (line : Line) : Text := List.replicate (2 * line.level) ' ' ++ line.content

/-- The line with a text behind it. -/
def followed (line : Line) (text : Text) : Line := { line with content := line.content ++ text }

/-- The line with one more block around it. -/
def deeper (line : Line) : Line := { line with level := line.level + 1 }

/-- The line with its blanks as part of its content. -/
def flat (line : Line) : Line := ⟨0, line.written⟩

end Line

/-- The lines of a text, all at one level. -/
def linesAt (level : Nat) (text : Text) : List Line := (text.splitOn '\n').map (Line.mk level)

/-- Lines of which the last goes on with a text, and more lines behind them. -/
def goOn (text : Text) (more : List Line) : List Line → List Line
  | [] => more
  | [last] => last.followed text :: more
  | line :: next :: rest => line :: goOn text more (next :: rest)

/-- The lines of entries, with a comma behind the last line of each entry but the last. -/
def listed : List (List Line) → List Line
  | [] => []
  | [last] => last
  | entry :: rest => goOn "," (listed rest) entry

/-- Code that is put together from texts and blocks. -/
inductive Sketch where
  | text (content : Text)
  /-- The second part right behind the first. -/
  | beside (first second : Sketch)
  | block (opening : Text) (entries : List Sketch) (closing : Text)

namespace Sketch

mutual

/-- The code, block by block from the innermost on. -/
def written : Sketch → Text
  | text content => content
  | beside first second => first.written ++ second.written
  | block opening entries closing => Layout.block opening (writtenAll entries) closing

/-- The code of several sketches. -/
def writtenAll : List Sketch → List Text
  | [] => []
  | sketch :: rest => sketch.written :: writtenAll rest

end

mutual

/-- The lines of the code, from the outermost block on. Nothing is laid out twice: each line
is told how many blocks are around it. -/
def outline : Sketch → Nat → List Line
  | text content, level => linesAt level content
  | beside first second, level =>
    match second.outline level with
    | [] => first.outline level
    | next :: more => goOn next.content more (first.outline level)
  | block opening entries closing, level =>
    if entries.isEmpty then [⟨level, opening ++ closing⟩]
    else ⟨level, opening⟩ :: (listed (outlineAll entries (level + 1)) ++ [⟨level, closing⟩])

/-- The lines of several sketches, each on its own. -/
def outlineAll : List Sketch → Nat → List (List Line)
  | [], _ => []
  | sketch :: rest, level => sketch.outline level :: outlineAll rest level

end

/-- Every block in the sketch opens and closes with a line and has proper entries. -/
inductive Fits : Sketch → Prop
  | text (content : Text) : Fits (text content)
  | beside {first second : Sketch} : Fits first → Fits second → Fits (beside first second)
  | block {opening closing : Text} {entries : List Sketch} :
      IsLine opening → IsLine closing → (∀ entry ∈ entries, Fits entry) →
      (∀ entry ∈ entries, IsEntry entry.written) → Fits (block opening entries closing)

end Sketch

section Lines

/-- The lines of a text start at its level. -/
theorem exists_linesAt (level : Nat) (text : Text) :
    ∃ content more, linesAt level text = ⟨level, content⟩ :: more := by
  obtain ⟨content, more, h⟩ := List.exists_cons_of_ne_nil (List.splitOn_ne_nil '\n' text)
  exact ⟨content, more.map (Line.mk level), by rw [linesAt, h]; rfl⟩

/-- A line feed ends an empty line. -/
theorem linesAt_feed (level : Nat) (text : Text) :
    linesAt level ('\n' :: text) = ⟨level, []⟩ :: linesAt level text := by
  rw [linesAt, List.splitOn_cons_eq_if_modifyHead, if_pos (by decide)]
  rfl

/-- Any other character is the first one of its line. -/
theorem linesAt_cons {c : Char} (hc : c ≠ '\n') {level : Nat} {text content : Text}
    {more : List Line} (h : linesAt level text = ⟨level, content⟩ :: more) :
    linesAt level (c :: text) = ⟨level, c :: content⟩ :: more := by
  obtain ⟨line, others, hsplit⟩ := List.exists_cons_of_ne_nil (List.splitOn_ne_nil '\n' text)
  rw [linesAt, hsplit] at h
  rw [linesAt, List.splitOn_cons_eq_if_modifyHead, if_neg (by simpa using hc), hsplit]
  cases h
  rfl

/-- The lines of a text go on with those of the text behind it. -/
theorem linesAt_append (first : Text) {level : Nat} {second content : Text} {more : List Line}
    (h : linesAt level second = ⟨level, content⟩ :: more) :
    linesAt level (first ++ second) = goOn content more (linesAt level first) := by
  induction first with
  | nil => exact h
  | cons c rest ih =>
    obtain ⟨start, others, hrest⟩ := exists_linesAt level rest
    by_cases hc : c = '\n'
    · rw [hc, List.cons_append, linesAt_feed, linesAt_feed, ih, hrest]
      rfl
    · rw [linesAt_cons hc hrest]
      rw [hrest] at ih
      cases others with
      | nil => exact linesAt_cons hc ih
      | cons next others => exact linesAt_cons hc ih

/-- Lines behind others do not depend on how these go on. -/
theorem goOn_append (text : Text) (more lines : List Line) :
    goOn text more lines = goOn text [] lines ++ more := by
  fun_induction goOn text more lines with
  | case1 => rfl
  | case2 last => rfl
  | case3 line next rest ih => rw [ih]; rfl

/-- A change to every line that does not depend on the end of the line. -/
theorem map_goOn {f : Line → Line} (hf : ∀ line text, f (line.followed text) = (f line).followed text)
    (text : Text) (more lines : List Line) :
    (goOn text more lines).map f = goOn text (more.map f) (lines.map f) := by
  fun_induction goOn text more lines with
  | case1 => rfl
  | case2 last => simp [goOn, hf]
  | case3 line next rest ih => simpa [goOn] using ih

/-- A comma stands behind an entry that others follow. -/
theorem listed_cons (entry : List Line) {rest : List (List Line)} (hne : rest ≠ []) :
    listed (entry :: rest) = goOn "," (listed rest) entry := by
  obtain ⟨next, more, rfl⟩ := List.exists_cons_of_ne_nil hne
  rfl

/-- Such a change to the lines of entries. -/
theorem map_listed {f : Line → Line}
    (hf : ∀ line text, f (line.followed text) = (f line).followed text)
    (entries : List (List Line)) :
    (listed entries).map f = listed (entries.map (List.map f)) := by
  fun_induction listed entries with
  | case1 => rfl
  | case2 last => rfl
  | case3 entry rest hne ih =>
    rw [map_goOn hf, ih, List.map_cons, listed_cons _ (mt List.map_eq_nil_iff.1 hne)]

/-- One level more does not depend on the end of a line. -/
theorem deeper_followed (line : Line) (text : Text) :
    (line.followed text).deeper = line.deeper.followed text := rfl

/-- What stands before a line does not depend on its end. -/
theorem flat_followed (line : Line) (text : Text) :
    (line.followed text).flat = line.flat.followed text := by
  simp [Line.flat, Line.followed, Line.written]

/-- To count the blanks of a line to its content and to set it in is the same in either
order. -/
theorem flat_deeper_flat (line : Line) : line.flat.deeper.flat = line.deeper.flat := by
  have hblanks : List.replicate (2 * (line.level + 1)) ' ' =
      List.replicate 2 ' ' ++ List.replicate (2 * line.level) ' ' := by
    rw [List.replicate_append_replicate, Nat.mul_add, Nat.add_comm]
  simp [Line.flat, Line.deeper, Line.written, hblanks]

/-- The lines of a text one level deeper. -/
theorem linesAt_succ (level : Nat) (text : Text) :
    linesAt (level + 1) text = (linesAt level text).map Line.deeper := by
  rw [linesAt, linesAt, List.map_map]
  rfl

end Lines

section Blocks

variable {opening closing : Text}

/-- Lines of which the last one closes a block do not end with a line feed. -/
theorem IsLine.getLast?_lines (h : IsLine closing) (lines : List Text) :
    (Text.joinWith ['\n'] (lines ++ [closing])).getLast? ≠ some '\n' := by
  rw [Text.getLast?_joinWith _ _ h.nonempty]
  exact fun hlast => h.unbroken (List.mem_of_getLast? hlast)

/-- The lines of the entries of a block, two columns further right. -/
def inner (entries : List Text) : List Text :=
  ((separated entries).flatMap Text.lines).map (List.replicate 2 ' ' ++ ·)

/-- The characters of these lines are blanks and characters of the entries and commas other
than line feeds. -/
theorem mem_of_mem_inner {entries : List Text} {line : Text} (hline : line ∈ inner entries)
    {c : Char} (hc : c ∈ line) : c = ' ' ∨ c ≠ '\n' ∧ ∃ entry ∈ separated entries, c ∈ entry := by
  obtain ⟨content, hcontent, rfl⟩ := List.mem_map.1 hline
  obtain ⟨entry, hentry, hcontent⟩ := List.mem_flatMap.1 hcontent
  obtain hc | hc := List.mem_append.1 hc
  · exact .inl (List.eq_of_mem_replicate hc)
  · obtain ⟨hmem, hfeed⟩ := Text.mem_of_mem_lines hcontent hc
    exact .inr ⟨hfeed, entry, hentry, hmem⟩

/-- A block is its lines with line feeds between them. -/
theorem block_eq_joinWith (opening : Text) {entries : List Text} (hne : entries ≠ [])
    {closing : Text} (hclosing : IsLine closing) :
    block opening entries closing =
      Text.joinWith ['\n'] (opening :: (inner entries ++ [closing])) := by
  have hlast := hclosing.getLast?_lines (opening :: inner entries)
  have hmargin : Writer.marginLine .schema 1 =
      fun line => List.replicate 2 ' ' ++ line ++ ['\n'] := rfl
  rw [block, if_neg (by simpa using hne), ← List.cons_append, ← trimNewlines_append hlast,
    ← Text.flatMap_feed (List.append_ne_nil_of_right_ne_nil _ (List.cons_ne_nil _ _))]
  simp only [Writer.foldl_lines_eq, Writer.within_allLines_text]
  simp [inner, Writer.new, hmargin, Writer.marginLine, Writer.margin, List.flatMap_map]

/-- The lines of a block with any entries. -/
theorem splitOn_block (hopening : IsLine opening) (hclosing : IsLine closing)
    {entries : List Text} (hne : entries ≠ []) :
    (block opening entries closing).splitOn '\n' = opening :: (inner entries ++ [closing]) := by
  rw [block_eq_joinWith opening hne hclosing]
  refine List.splitOn_intercalate '\n' (fun line hline => ?_) (List.cons_ne_nil _ _)
  obtain rfl | hline := List.mem_cons.1 hline
  · exact hopening.unbroken
  obtain hline | hline := List.mem_append.1 hline
  · intro hfeed
    obtain hblank | ⟨hother, -⟩ := mem_of_mem_inner hline hfeed
    · cases hblank
    · exact hother rfl
  · rw [List.mem_singleton.1 hline]
    exact hclosing.unbroken

/-- A comma makes no difference to an entry. -/
theorem IsEntry.comma {entry : Text} (h : IsEntry entry) : IsEntry (entry ++ [',']) where
  nonempty := List.append_ne_nil_of_right_ne_nil _ (List.cons_ne_nil _ _)
  no_return := by simpa using h.no_return
  ends := by
    rw [List.getLast?_concat]
    decide

/-- The lines of an entry, two columns further right, are those one level deep. -/
theorem map_lines_eq {entry : Text} (h : IsEntry entry) :
    (Text.lines entry).map (List.replicate 2 ' ' ++ ·) = (linesAt 1 entry).map Line.written := by
  rw [Text.lines_eq_splitOn h.nonempty h.no_return h.ends, linesAt, List.map_map]
  rfl

/-- Entries with commas are entries. -/
theorem isEntry_separated {entries : List Text} (hentries : ∀ entry ∈ entries, IsEntry entry) :
    ∀ entry ∈ separated entries, IsEntry entry := by
  fun_induction separated entries with
  | case1 => exact hentries
  | case2 last => exact hentries
  | case3 entry rest hne ih =>
    obtain ⟨hentry, hrest⟩ := List.forall_mem_cons.1 hentries
    exact List.forall_mem_cons.2 ⟨hentry.comma, ih hrest⟩

/-- The lines of entries with commas are the listed ones. -/
theorem flatMap_linesAt_separated (level : Nat) (entries : List Text) :
    (separated entries).flatMap (linesAt level) = listed (entries.map (linesAt level)) := by
  fun_induction separated entries with
  | case1 => rfl
  | case2 last => exact List.flatMap_singleton _ _
  | case3 entry rest hne ih =>
    have hcomma : linesAt level (entry ++ [',']) = goOn "," [] (linesAt level entry) :=
      linesAt_append entry rfl
    rw [List.flatMap_cons, ih, hcomma, ← goOn_append, List.map_cons,
      listed_cons _ (mt List.map_eq_nil_iff.1 hne)]

/-- The lines of proper entries are the listed ones, one level deep. -/
theorem inner_eq {entries : List Text} (hentries : ∀ entry ∈ entries, IsEntry entry) :
    inner entries = (listed (entries.map (linesAt 1))).map Line.written := by
  have hseparated := isEntry_separated hentries
  rw [inner, ← flatMap_linesAt_separated, List.map_flatMap, List.map_flatMap, List.flatMap_def,
    List.flatMap_def]
  exact congrArg List.flatten
    (List.map_congr_left fun entry hentry => map_lines_eq (hseparated entry hentry))

/-- The lines of a block with proper entries. -/
theorem linesAt_block (hopening : IsLine opening) (hclosing : IsLine closing) {entries : List Text}
    (hne : entries ≠ []) (hentries : ∀ entry ∈ entries, IsEntry entry) :
    linesAt 0 (block opening entries closing) =
      ⟨0, opening⟩ :: ((listed (entries.map (linesAt 1))).map Line.flat ++ [⟨0, closing⟩]) := by
  rw [linesAt, splitOn_block hopening hclosing hne, inner_eq hentries, List.map_cons,
    List.map_append, List.map_map]
  rfl

/-- A block without entries is one line. -/
theorem linesAt_block_nil (hopening : IsLine opening) (hclosing : IsLine closing) :
    linesAt 0 (block opening [] closing) = [⟨0, opening ++ closing⟩] := by
  have hline : '\n' ∉ opening ++ closing := by
    rw [List.mem_append, not_or]
    exact ⟨hopening.unbroken, hclosing.unbroken⟩
  have hblock : block opening [] closing = opening ++ closing := rfl
  rw [hblock, linesAt, List.splitOn_eq_singleton hline]
  rfl

/-- The last line of a block does not end with a line feed. -/
theorem getLast?_block (opening : Text) {entries : List Text} (hne : entries ≠ [])
    {closing : Text} (hclosing : IsLine closing) :
    (block opening entries closing).getLast? ≠ some '\n' := by
  rw [block_eq_joinWith opening hne hclosing]
  exact hclosing.getLast?_lines (opening :: inner entries)

end Blocks

namespace Sketch

/-- The code of several sketches is that of each of them. -/
theorem writtenAll_eq (sketches : List Sketch) : writtenAll sketches = sketches.map written := by
  induction sketches with
  | nil => rfl
  | cons sketch rest ih => rw [writtenAll, ih, List.map_cons]

/-- The lines of several sketches are those of each of them. -/
theorem outlineAll_eq (sketches : List Sketch) (level : Nat) :
    outlineAll sketches level = sketches.map (outline · level) := by
  induction sketches with
  | nil => rfl
  | cons sketch rest ih => rw [outlineAll, ih, List.map_cons]

/-- The lines of a sketch start at its level. -/
theorem exists_outline (level : Nat) : ∀ sketch : Sketch,
    ∃ content more, sketch.outline level = ⟨level, content⟩ :: more
  | text content => exists_linesAt level content
  | beside first second => by
    obtain ⟨content, more, hfirst⟩ := exists_outline level first
    obtain ⟨start, others, hsecond⟩ := exists_outline level second
    rw [outline, hfirst, hsecond]
    cases more with
    | nil => exact ⟨_, _, rfl⟩
    | cons next more => exact ⟨_, _, rfl⟩
  | block opening entries closing => by
    rw [outline]
    split
    · exact ⟨_, _, rfl⟩
    · exact ⟨_, _, rfl⟩

mutual

/-- One level deeper, every line is. -/
theorem outline_succ : ∀ (sketch : Sketch) (level : Nat),
    sketch.outline (level + 1) = (sketch.outline level).map Line.deeper
  | text content, level => linesAt_succ level content
  | beside first second, level => by
    obtain ⟨content, more, hsecond⟩ := exists_outline level second
    rw [outline, outline, outline_succ first, outline_succ second, hsecond]
    exact (map_goOn deeper_followed content more _).symm
  | block opening entries closing, level => by
    rw [outline, outline, outlineAll_succ entries]
    split
    · rfl
    · rw [List.map_cons, List.map_append, map_listed deeper_followed]
      rfl

/-- This goes for several sketches. -/
theorem outlineAll_succ : ∀ (sketches : List Sketch) (level : Nat),
    outlineAll sketches (level + 1) = (outlineAll sketches level).map (List.map Line.deeper)
  | [], _ => rfl
  | sketch :: rest, level => by
    rw [outlineAll, outlineAll, outline_succ sketch, outlineAll_succ rest, List.map_cons]

end

/-- The lines of the code are those of the outline, with their blanks. -/
theorem linesAt_written {sketch : Sketch} (h : sketch.Fits) :
    linesAt 0 sketch.written = (sketch.outline 0).map Line.flat := by
  induction h with
  | text content =>
    rw [outline, written, linesAt, List.map_map]
    rfl
  | @beside first second _ _ hfirst hsecond =>
    obtain ⟨content, more, houtline⟩ := exists_outline 0 second
    have hlines : linesAt 0 second.written = ⟨0, content⟩ :: more.map Line.flat := by
      rw [hsecond, houtline]
      rfl
    rw [written, linesAt_append _ hlines, hfirst, outline, houtline, map_goOn flat_followed]
  | @block opening closing entries hopening hclosing _ hentries ih =>
    rw [written, outline, writtenAll_eq, outlineAll_eq]
    by_cases hne : entries = []
    · subst hne
      exact linesAt_block_nil hopening hclosing
    · -- each entry is indented in its block and then as a part of the outer one
      have hdeeper (entry : Sketch) (hentry : entry ∈ entries) :
          (linesAt 1 entry.written).map Line.flat = (entry.outline 1).map Line.flat := by
        rw [linesAt_succ, ih entry hentry, outline_succ, List.map_map, List.map_map, List.map_map]
        exact List.map_congr_left fun line _ => flat_deeper_flat line
      have hlisted : (listed ((entries.map written).map (linesAt 1))).map Line.flat =
          (listed (entries.map (outline · 1))).map Line.flat := by
        rw [map_listed flat_followed, map_listed flat_followed, List.map_map, List.map_map,
          List.map_map]
        exact congrArg listed (List.map_congr_left hdeeper)
      rw [linesAt_block hopening hclosing (by simpa using hne) (by simpa using hentries), hlisted,
        if_neg (by simpa using hne), List.map_cons, List.map_append]
      rfl

end Sketch

/-- A block without carriage returns is cut into lines at its line feeds. -/
theorem lines_block {opening closing : Text} (hopening : '\r' ∉ opening) (hclosing : '\r' ∉ closing)
    (hline : IsLine closing) {entries : List Text} (hne : entries ≠ [])
    (hentries : ∀ entry ∈ entries, IsEntry entry) :
    Text.lines (block opening entries closing) = (block opening entries closing).splitOn '\n' := by
  have hblock := block_eq_joinWith opening hne hline
  refine Text.lines_eq_splitOn (fun hnil => ?_) (fun hreturn => ?_) (getLast?_block opening hne hline)
  · have hlast := Text.getLast?_joinWith ['\n'] (opening :: inner entries) hline.nonempty
    rw [List.cons_append, ← hblock, hnil] at hlast
    exact hline.nonempty (List.getLast?_eq_none_iff.1 hlast.symm)
  · have hwhole := List.mem_append_left ['\n'] hreturn
    rw [hblock, ← Text.flatMap_feed (List.cons_ne_nil _ _)] at hwhole
    obtain ⟨line, hpart, hended⟩ := List.mem_flatMap.1 hwhole
    have hmem : '\r' ∈ line := by simpa using hended
    simp only [List.mem_cons, List.mem_append, List.not_mem_nil, or_false] at hpart
    obtain rfl | hpart | rfl := hpart
    · exact hopening hmem
    · obtain hblank | ⟨-, entry, hentry, hfound⟩ := mem_of_mem_inner hpart hmem
      · cases hblank
      · exact (isEntry_separated hentries entry hentry).no_return hfound
    · exact hclosing hmem

/-- The lines of a block are the opening line, the lines of the entries in order, each behind
two blanks, with one comma behind the last line of every entry but the last, and the closing
line, without a line feed at the end. In code that is put together from texts and blocks in
any way, each line is the one that was laid out, behind two blanks for each block around it. -/
theorem block_indents :
    (∀ (opening closing : Text) (entries : List Text), IsLine opening → IsLine closing →
      entries ≠ [] → (∀ entry ∈ entries, IsEntry entry) →
      (block opening entries closing).splitOn '\n' =
        opening :: ((listed (entries.map (linesAt 1))).map Line.written ++ [closing]) ∧
      (block opening entries closing).getLast? ≠ some '\n' ∧
      ('\r' ∉ opening → '\r' ∉ closing → Text.lines (block opening entries closing) =
        (block opening entries closing).splitOn '\n')) ∧
    ∀ sketch : Sketch, sketch.Fits →
      sketch.written.splitOn '\n' = (sketch.outline 0).map Line.written := by
  refine ⟨fun opening closing entries hopening hclosing hne hentries => ⟨?_, ?_, ?_⟩,
    fun sketch hsketch => ?_⟩
  · rw [splitOn_block hopening hclosing hne, inner_eq hentries]
  · exact getLast?_block opening hne hclosing
  · exact fun hfirst hlast => lines_block hfirst hlast hclosing hne hentries
  · have hlines := congrArg (List.map Line.content) (Sketch.linesAt_written hsketch)
    rw [linesAt, List.map_map, List.map_map] at hlines
    exact (List.map_id _).symm.trans hlines

/-- An entry with an empty line and indentation of its own, and an array of objects in an
object. -/
theorem block_indents_nested :
    (block "[" ["a: 1,\n\n  b: 2", "c: 3"] "]").splitOn '\n' =
      (["[", "  a: 1,", "  ", "    b: 2,", "  c: 3", "]"] : List Text) ∧
    (Sketch.block "z.object(\x7b" [.beside (.text "a: z.array(") (.beside
      (.block "z.object(\x7b" [.text "b: z.string()", .text "c: z.null()"] "\x7d)")
      (.text ")")), .text "d: z.date()"] "\x7d)").written.splitOn '\n' =
      (["z.object(\x7b", "  a: z.array(z.object(\x7b", "    b: z.string(),", "    c: z.null()",
        "  \x7d)),", "  d: z.date()", "\x7d)"] : List Text) := by
  obtain ⟨hblock, hsketch⟩ := block_indents
  have hopening : IsLine "z.object(\x7b" := by decide
  have hclosing : IsLine "\x7d)" := by decide
  refine ⟨(hblock _ _ _ (by decide) (by decide) (by decide) (by decide)).1.trans (by decide),
    (hsketch _ (.block hopening hclosing (List.forall_mem_cons.2 ⟨?_, ?_⟩) ?_)).trans (by decide)⟩
  · refine .beside (.text _) (.beside (.block hopening hclosing ?_ (by decide)) (.text _))
    exact List.forall_mem_cons.2 ⟨.text _, List.forall_mem_singleton.2 (.text _)⟩
  · exact List.forall_mem_singleton.2 (.text _)
  · decide

end Layout

end InterfaceSchema
