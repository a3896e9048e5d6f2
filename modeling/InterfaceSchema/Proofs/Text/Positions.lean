import InterfaceSchema.Config.Read
import Mathlib.Data.List.DropRight

/-!
# Offsets of lines and columns

Lines and columns are counted on the bytes of a text: the line feeds before an offset, and
the bytes between the last of them and the offset. The offset of a line and a column is the
one that they were counted at, and never lies behind the text.
-/

namespace InterfaceSchema

namespace Text

/-- The bytes of the UTF-8 form. -/
def bytes (text : Text) : List UInt8 := text.flatMap String.utf8EncodeChar

/-- The byte of a line feed. -/
def lineFeed : UInt8 := 0x0A

/-- The bytes behind the last line feed. -/
def lastLine (found : List UInt8) : List UInt8 := found.rtakeWhile (· != lineFeed)

/-- The line of a byte offset, counted from one. -/
def lineAt (text : Text) (offset : Nat) : Nat := 1 + ((bytes text).take offset).count lineFeed

/-- The column of a byte offset, counted from one. -/
def columnAt (text : Text) (offset : Nat) : Nat := 1 + (lastLine ((bytes text).take offset)).length

section Bytes

/-- The bytes of a character come before those of the others. -/
theorem bytes_cons (c : Char) (rest : Text) :
    bytes (c :: rest) = String.utf8EncodeChar c ++ bytes rest := List.flatMap_cons

/-- There are as many bytes as are counted. -/
theorem length_bytes (text : Text) : (bytes text).length = byteLength text := by
  induction text with
  | nil => rfl
  | cons c rest ih =>
    rw [bytes_cons, List.length_append, String.length_utf8EncodeChar, ih, byteLength_cons]

/-- A byte with another value is not that of a line feed. -/
theorem lineFeed_ne {n : Nat} (h : n % 256 ≠ 10) : lineFeed ≠ UInt8.ofNat n := by
  intro heq
  have hnat := congrArg UInt8.toNat heq
  rw [UInt8.toNat_ofNat'] at hnat
  exact h hnat.symm

/-- No other character has the byte of a line feed in its UTF-8 form. -/
theorem lineFeed_notMem {c : Char} (hc : c ≠ '\n') : lineFeed ∉ String.utf8EncodeChar c := by
  have hval : c.val.toNat ≠ 10 := fun h => hc (Char.ext (UInt32.toNat.inj h))
  fun_cases String.utf8EncodeChar c with
  | case1 v h =>
    simp only [List.mem_singleton]
    exact lineFeed_ne (by omega)
  | case2 v h h' =>
    simp only [List.mem_cons, List.not_mem_nil, or_false, not_or]
    exact ⟨lineFeed_ne (by omega), lineFeed_ne (by omega)⟩
  | case3 v h h' h'' =>
    simp only [List.mem_cons, List.not_mem_nil, or_false, not_or]
    exact ⟨lineFeed_ne (by omega), lineFeed_ne (by omega), lineFeed_ne (by omega)⟩
  | case4 v h h' h'' =>
    simp only [List.mem_cons, List.not_mem_nil, or_false, not_or]
    exact ⟨lineFeed_ne (by omega), lineFeed_ne (by omega), lineFeed_ne (by omega),
      lineFeed_ne (by omega)⟩

end Bytes

section Lines

/-- Without line feeds, the last line goes on. -/
theorem lastLine_append_of_notMem (first : List UInt8) {second : List UInt8}
    (h : lineFeed ∉ second) : lastLine (first ++ second) = lastLine first ++ second := by
  have hall : ∀ byte ∈ second.reverse, (byte != lineFeed) = true := fun byte hbyte =>
    bne_iff_ne.2 fun heq => h (heq ▸ List.mem_reverse.1 hbyte)
  rw [lastLine, List.rtakeWhile, List.reverse_append, List.takeWhile_append_of_pos hall,
    List.reverse_append, List.reverse_reverse]
  rfl

/-- Behind a line feed, nothing is on the last line that stands before it. -/
theorem lastLine_append_of_mem (first : List UInt8) {second : List UInt8}
    (h : lineFeed ∈ second) : lastLine (first ++ second) = lastLine second := by
  rw [lastLine, List.rtakeWhile, List.reverse_append, List.takeWhile_append, if_neg]
  · rfl
  · intro hlength
    have hall := List.takeWhile_eq_self_iff.1 ((List.takeWhile_prefix _).eq_of_length hlength)
    exact bne_iff_ne.1 (hall lineFeed (List.mem_reverse.2 h)) rfl

/-- Bytes without line feeds are all on one line. -/
theorem lastLine_eq_self {found : List UInt8} (h : lineFeed ∉ found) : lastLine found = found :=
  lastLine_append_of_notMem [] h

/-- What follows a line feed starts a line. -/
theorem lastLine_feed (found : List UInt8) : lastLine (lineFeed :: found) = lastLine found := by
  by_cases h : lineFeed ∈ found
  · exact lastLine_append_of_mem [lineFeed] h
  · rw [lastLine_eq_self h]
    exact lastLine_append_of_notMem [lineFeed] h

/-- A character other than a line feed is part of the line that follows. -/
theorem linesWithEnds_cons {c : Char} (hc : c ≠ '\n') {rest line : Text} {more : List Text}
    (h : linesWithEnds rest = line :: more) :
    linesWithEnds (c :: rest) = (c :: line) :: more := by
  rw [linesWithEnds.eq_3 c rest hc, h]

/-- The bytes of the lines that end before an offset, and of what stands between them and
the offset. -/
def bytesBefore (text : Text) (offset : Nat) : Nat :=
  byteLength ((linesWithEnds text).take (((bytes text).take offset).count lineFeed)).flatten +
    (lastLine ((bytes text).take offset)).length

/-- Without line feeds before it, an offset is on the first line. -/
theorem bytesBefore_of_notMem {text : Text} {offset : Nat} (h : offset ≤ (bytes text).length)
    (hfeed : lineFeed ∉ (bytes text).take offset) : bytesBefore text offset = offset := by
  rw [bytesBefore, List.count_eq_zero_of_not_mem hfeed, lastLine_eq_self hfeed, List.length_take,
    Nat.min_eq_left h]
  exact Nat.zero_add offset

/-- A line feed is a line of its own before those that follow. -/
theorem bytesBefore_feed (rest : Text) (offset : Nat) :
    bytesBefore ('\n' :: rest) (offset + 1) = bytesBefore rest offset + 1 := by
  have hbytes : (bytes ('\n' :: rest)).take (offset + 1) =
      lineFeed :: (bytes rest).take offset := rfl
  have hlines : linesWithEnds ('\n' :: rest) = ['\n'] :: linesWithEnds rest := rfl
  have hsize : ('\n' : Char).utf8Size = 1 := rfl
  rw [bytesBefore, bytesBefore, hbytes, lastLine_feed, List.count_cons_self, hlines,
    List.take_succ_cons, List.flatten_cons, byteLength_append, byteLength_cons, byteLength_nil, hsize]
  omega

/-- Behind another character, a line that ended before the offset still does. -/
theorem bytesBefore_cons {c : Char} (hc : c ≠ '\n') {rest : Text} {offset : Nat}
    (hfeed : lineFeed ∈ (bytes rest).take offset) :
    bytesBefore (c :: rest) (c.utf8Size + offset) = c.utf8Size + bytesBefore rest offset := by
  obtain ⟨ended, hcount⟩ := Nat.exists_eq_add_of_le' (List.count_pos_iff.2 hfeed)
  obtain ⟨line, more, hlines⟩ : ∃ line more, linesWithEnds rest = line :: more := by
    refine List.exists_cons_of_ne_nil fun hnil => ?_
    have hrest := flatten_linesWithEnds rest
    rw [hnil] at hrest
    subst hrest
    simp [bytes] at hfeed
  have hbytes : (bytes (c :: rest)).take (c.utf8Size + offset) =
      String.utf8EncodeChar c ++ (bytes rest).take offset := by
    rw [bytes_cons, ← String.length_utf8EncodeChar, List.take_length_add_append]
  rw [bytesBefore, bytesBefore, hbytes, lastLine_append_of_mem _ hfeed, List.count_append,
    List.count_eq_zero_of_not_mem (lineFeed_notMem hc), Nat.zero_add, hcount,
    linesWithEnds_cons hc hlines, hlines, List.take_succ_cons, List.take_succ_cons,
    List.flatten_cons, List.flatten_cons, byteLength_append, byteLength_append, byteLength_cons]
  omega

/-- An offset that lies behind a line feed lies behind the character before it. -/
theorem exists_behind {c : Char} (hc : c ≠ '\n') {rest : Text} {offset : Nat}
    (hfeed : lineFeed ∈ (bytes (c :: rest)).take offset) :
    ∃ behind, offset = c.utf8Size + behind ∧ lineFeed ∈ (bytes rest).take behind := by
  rw [bytes_cons, List.take_append, List.mem_append, String.length_utf8EncodeChar] at hfeed
  obtain hfirst | hrest := hfeed
  · exact absurd (List.mem_of_mem_take hfirst) (lineFeed_notMem hc)
  · have hpos : 0 < offset - c.utf8Size := Nat.pos_of_ne_zero fun hzero => by
      rw [hzero] at hrest
      cases hrest
    exact ⟨offset - c.utf8Size, by omega, hrest⟩

/-- The lines that end before an offset and the bytes behind them make up the offset. -/
theorem bytesBefore_eq (text : Text) {offset : Nat} (h : offset ≤ (bytes text).length) :
    bytesBefore text offset = offset := by
  induction text generalizing offset with
  | nil =>
    obtain rfl := Nat.le_zero.1 h
    rfl
  | cons c rest ih =>
    -- an offset within the first character has no line feed before it
    by_cases hfeed : lineFeed ∈ (bytes (c :: rest)).take offset
    · by_cases hc : c = '\n'
      · subst hc
        cases offset with
        | zero => cases hfeed
        | succ offset => rw [bytesBefore_feed, ih (Nat.le_of_succ_le_succ h)]
      · obtain ⟨behind, rfl, hbehind⟩ := exists_behind hc hfeed
        rw [length_bytes, byteLength_cons, ← length_bytes] at h
        rw [bytesBefore_cons hc hbehind, ih (Nat.le_of_add_le_add_left h)]
    · exact bytesBefore_of_notMem h hfeed

end Lines

/-- Every column of every line from the first on has an offset in the text or at its end. -/
theorem exists_offsetOf? (text : Text) {line : Nat} (hline : 1 ≤ line) (column : Nat) :
    ∃ offset ≤ (bytes text).length, offsetOf? text line column = some offset := by
  rw [length_bytes]
  exact ⟨_, Nat.min_le_right _ _, if_neg (Nat.ne_of_gt hline)⟩

/-- Going on in a text never leads to an earlier line. -/
theorem LineColumn.line_le_after (here : LineColumn) (distance : Nat) (text : Text) :
    here.line ≤ (here.after distance text).line := by
  fun_induction LineColumn.after here distance text with
  | case1 here distance => exact Nat.le_refl _
  | case2 here distance c rest h => exact Nat.le_refl _
  | case3 here distance rest h ih => exact Nat.le_trans (Nat.le_succ _) ih
  | case4 here distance c rest h hc ih => exact ih

end Text

/-- A fault in a JSON file is shown at one place of the file. -/
theorem ConfigError.labels_json (file content : Text) (fault : Fault) :
    ∃ offset ≤ (Text.bytes content).length,
      ((ConfigError.fault .json fault).diagnostic file content).labels =
        [⟨"parse error here", ⟨offset, offset⟩⟩] := by
  have hline := Text.LineColumn.line_le_after ⟨1, 0⟩
    (fault.site.readUpTo (Text.byteLength content)) content
  obtain ⟨offset, hoffset, hfound⟩ := Text.exists_offsetOf? content hline
    (Text.lineColumn content (fault.site.readUpTo (Text.byteLength content))).column
  refine ⟨offset, hoffset, ?_⟩
  have hspan : faultSpan? content .json fault = some ⟨offset, offset⟩ :=
    congrArg (Option.map fun offset => Span.mk offset offset) hfound
  exact congrArg (labelAt "parse error here") hspan

/-- The offset of the line and the column that are counted at a byte offset, up to the end of
the text, is that offset. Every column of every line from the first on, also one that the text
does not have, has an offset in the text or at its end, so that the label of a fault in a JSON
file lies in that file. -/
theorem Text.offsetOf?_counted (text : Text) :
    (∀ offset ≤ (bytes text).length,
      offsetOf? text (lineAt text offset) (columnAt text offset) = some offset) ∧
    (∀ line column, 1 ≤ line →
      ∃ offset ≤ (bytes text).length, offsetOf? text line column = some offset) ∧
    ∀ file fault, ∃ offset ≤ (bytes text).length,
      ((ConfigError.fault .json fault).diagnostic file text).labels =
        [⟨"parse error here", ⟨offset, offset⟩⟩] := by
  refine ⟨fun offset h => ?_, fun line column hline => exists_offsetOf? text hline column,
    fun file fault => ConfigError.labels_json file text fault⟩
  have hbefore := bytesBefore_eq text h
  rw [length_bytes] at h
  rw [offsetOf?, if_neg (by simp [lineAt]), lineAt, columnAt, Nat.add_sub_cancel_left,
    Nat.add_sub_cancel_left]
  exact congrArg some ((congrArg (min · (byteLength text)) hbefore).trans (Nat.min_eq_left h))

/-- An offset in the middle of a character, behind an empty line, and a line that the text does
not have. -/
theorem Text.offsetOf?_counted_inside :
    lineAt "a\n\né!" 4 = 3 ∧ columnAt "a\n\né!" 4 = 2 ∧ offsetOf? "a\n\né!" 3 2 = some 4 ∧
      ∃ offset ≤ 6, offsetOf? "a\n\né!" 9 0 = some offset := by
  obtain ⟨hinverse, hinside, -⟩ := Text.offsetOf?_counted "a\n\né!"
  exact ⟨by decide, by decide, hinverse 4 (by decide), hinside 9 0 (by decide)⟩

end InterfaceSchema
