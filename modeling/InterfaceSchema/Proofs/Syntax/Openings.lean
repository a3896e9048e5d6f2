import InterfaceSchema.Proofs.Syntax.Declared
import InterfaceSchema.Proofs.Syntax.Written

/-!
# Where declarations start

A declaration starts at its documentation comment or its first token, and the name in
it is read as far as it goes. So no interface starts where the declaration of a longer
name stands: the word would be read to its end.
-/

namespace InterfaceSchema

open Grammar Piece

section Standing

variable {source text other : Text} {position : Nat} {c d : Char}

/-- A text stands where the source goes on with it. -/
theorem Stands.exists_dropBytes (h : Stands source text position) :
    ∃ after, Text.dropBytes position source = text ++ after := by
  obtain ⟨before, after, rfl, rfl⟩ := h
  exact ⟨after, Text.dropBytes_byteLength_append _ _⟩

/-- Texts that stand at one position start alike. -/
theorem Stands.head_eq (h : Stands source (c :: text) position)
    (hother : Stands source (d :: other) position) : c = d := by
  obtain ⟨_, h⟩ := h.exists_dropBytes
  obtain ⟨_, hother⟩ := hother.exists_dropBytes
  exact (List.cons.inj (h.symm.trans hother)).1

/-- The second part of a text stands behind the first one. -/
theorem Stands.behind (h : Stands source (text ++ other) position) :
    Stands source other (position + Text.byteLength text) := by
  obtain ⟨before, after, rfl, rfl⟩ := h
  exact ⟨before ++ text, after, by simp only [List.append_assoc], Text.byteLength_append _ _⟩

/-- The tokens of what is left behind a piece of the source are placed in it. -/
theorem exists_placed_scanRest {found left : Text} (h : Cut source position)
    (heq : Text.dropBytes position source = found ++ left) :
    ∃ start, Placed source start (Token.scanRest (position + Text.byteLength found) left) := by
  obtain ⟨before, hsource, rfl⟩ := h.dropBytes
  rw [heq, ← List.append_assoc] at hsource
  rw [← Text.byteLength_append]
  exact ⟨_, scanRest_placed hsource⟩

end Standing

/-- All tokens that readers leave are contiguous, and the comments in front of them
stand in the source as well. -/
def placement (source : Text) : TokenInvariant source where
  Holds tokens := Contiguous source tokens ∧ ∃ start, Placed source start tokens
  Resumes := Cut source
  tail := by
    rintro token rest ⟨hcontiguous, start, hplaced⟩
    exact ⟨(contiguity source).tail hcontiguous, _, hplaced.2⟩
  settled := by
    rintro token rest ⟨hcontiguous, start, ⟨hcomments, hstands⟩, hrest⟩
    exact ⟨(contiguity source).settled hcontiguous, _,
      ⟨(CommentsPlaced.of_append hcomments).1, hstands⟩, hrest⟩
  regex h hregex :=
    ⟨(contiguity source).regex h.1 hregex,
      exists_placed_scanRest h.1.1.cut_start (Scan.eq_of_regex? hregex)⟩
  opened h _ := h.1.1.cut_stop
  closed _ h _ := h.1.1.cut_stop
  template hcut htext :=
    ⟨(contiguity source).template hcut htext,
      exists_placed_scanRest hcut (Scan.eq_of_templateText htext)⟩

section Longer

variable {source name tail : Text} {c : Char} {position : Nat}

/-- A word that can go on does. -/
theorem Scan.wordRest_ne_nil (hpart : Scan.isWordPart c = true) (more : Text) :
    (Scan.wordRest (c :: more).length (c :: more)).1 ≠ [] := by
  have hletter : Scan.letter? Scan.isWordPart (c :: more) = some ([c], more) := if_pos hpart
  rw [List.length_cons, Scan.wordRest, hletter]
  exact List.cons_ne_nil _ _

/-- The tokens of a declaration are its keyword and a word that is longer than the name,
if the text goes on with what goes on with a word. -/
theorem exists_longer (hname : IsWord name) (hpart : Scan.isWordPart c = true)
    (h : Stands source (" interface " ++ (name ++ c :: tail)) position) :
    ∃ keyword token behind, tokensAt source position = keyword :: token :: behind ∧
      keyword.text = "interface".toList ∧ token.text ≠ name := by
  obtain ⟨after, hdrop⟩ := h.exists_dropBytes
  obtain ⟨run, left, hword, hrun⟩ : ∃ run left,
      Scan.word? (name ++ c :: (tail ++ after)) = some (name ++ run, left) ∧ run ≠ [] :=
    ⟨_, _, Scan.word?_append hname _, Scan.wordRest_ne_nil hpart _⟩
  have hsplit : name ++ c :: (tail ++ after) = name ++ run ++ left := Scan.eq_of_word? hword
  let pieces : List Piece := [.blank, word "interface", .blank, .token .word (name ++ run)]
  have hlegible : Legible left pieces := by
    refine ⟨IsWord.reads rfl ?_, (Scan.isWord_of_word? hword).readsBefore ?_, trivial⟩
    · exact Separated.leavesWord ⟨' ', _, rfl, by decide⟩
    · rw [Piece.join, List.flatMap_nil, List.nil_append, ← hsplit, hword]
  have hjoin : Text.dropBytes position source = join pieces ++ left := by
    have hbehind : name ++ c :: tail ++ after = name ++ run ++ left := by
      rw [List.append_assoc, List.cons_append, hsplit]
    rw [hdrop, List.append_assoc, hbehind]
    simp [pieces, join, Piece.text, word]
  obtain ⟨tokens, fuel, next, -, hspelled, htokens⟩ :=
    exists_tokens hlegible false position (Nat.lt_succ_self _)
  obtain ⟨keyword, _, rfl, hkeyword, hspelled⟩ := Spelled.exists_token hspelled
  obtain ⟨token, behind, rfl, htoken, -⟩ := Spelled.exists_token hspelled
  have htext : token.text = name ++ run := (Prod.mk.inj (Prod.mk.inj htoken).2).1
  rw [← hjoin] at htokens
  refine ⟨keyword, token, _, htokens, (Prod.mk.inj (Prod.mk.inj hkeyword).2).1, ?_⟩
  rw [htext]
  exact fun heq => hrun (List.append_right_eq_self.1 heq)

/-- A word that may stand in front of a declaration. -/
theorem exists_opener {token : Token} (h : isOneOf openers token = true) :
    token.text = "export".toList ∨ token.text = "default".toList ∨
      token.text = "declare".toList := by
  obtain ⟨word, hmem, hword⟩ := List.any_eq_true.1 h
  have htext : token.text = word.toList := beq_iff_eq.1 (Bool.and_eq_true_iff.1 hword).2
  simp only [openers, List.mem_cons, List.not_mem_nil, or_false] at hmem
  rcases hmem with rfl | rfl | rfl
  · exact .inl htext
  · exact .inr (.inl htext)
  · exact .inr (.inr htext)

/-- No tokens in the source declare a name where the exported declaration of a longer
one stands. -/
theorem not_declares_shorter {token : Token} {rest : List Token} (hname : IsWord name)
    (hpart : Scan.isWordPart c = true) (hcontiguous : Contiguous source (token :: rest))
    (h : Stands source ("export interface " ++ (name ++ c :: tail)) token.start) :
    ¬Declares "interface" name (token :: rest) := by
  obtain ⟨hstands, -, hrest⟩ := hcontiguous
  have hhead {d : Char} {more : Text} (htext : token.text = d :: more) : d = 'e' :=
    Stands.head_eq (htext ▸ hstands) h
  intro hdeclares
  cases hdeclares with
  | here hkeyword =>
    have htext : token.text = "interface".toList := beq_iff_eq.1 (Bool.and_eq_true_iff.1 hkeyword).2
    exact absurd (hhead htext) (by decide)
  | behind hopener hbehind =>
    have htext : token.text = "export".toList := by
      rcases exists_opener hopener with htext | htext | htext
      · exact htext
      · exact absurd (hhead htext) (by decide)
      · exact absurd (hhead htext) (by decide)
    have hstop : Stands source (" interface " ++ (name ++ c :: tail)) token.stop := by
      rw [Token.stop, htext]
      exact Stands.behind h
    obtain ⟨keyword, longer, behind, htokens, hkeyword, hlonger⟩ := exists_longer hname hpart hstop
    rcases hrest with rfl | rfl
    · cases hbehind
    · rw [htokens] at hbehind
      cases hbehind with
      | here _ _ heq => exact hlonger heq
      | behind hopener =>
        rcases exists_opener hopener with heq | heq | heq <;>
          exact absurd (heq.symm.trans hkeyword) (by decide)

end Longer

/-- No interface of a source starts where the exported declaration of a longer name
stands. -/
theorem SourceFile.not_stands_longer {source tail : Text} {c : Char} {file : SourceFile}
    (hread : SourceFile.read source = some file) {decl : InterfaceDecl}
    (hdecl : decl ∈ file.interfaces) (hpart : Scan.isWordPart c = true) :
    ¬Stands source ("export interface " ++ (decl.name ++ c :: tail)) decl.span.start := by
  obtain ⟨item, hitem, hinterface⟩ := List.mem_filterMap.1 hdecl
  obtain ⟨token, rest, declaring, ⟨hcontiguous, start, hplaced⟩, -, hbegun, hcases⟩ :=
    (placement source).begins_of_read ⟨contiguous_scan, 0, scan_placed source⟩ hread item hitem
  have hname : IsWord decl.name := SourceFile.isWord_of_interface hread hdecl
  cases item with
  | interfaceItem found =>
    cases hinterface
    obtain ⟨hstart, hdeclares⟩ := hbegun
    intro hlonger
    rw [hstart, documented] at hlonger
    cases hdoc : docOf token.gap.comments with
    | some span =>
      -- a comment starts with a slash
      rw [hdoc] at hlonger
      obtain ⟨comment, hlast, hspan⟩ := Option.bind_eq_some_iff.1 hdoc
      obtain ⟨-, hcomment, -⟩ := hplaced.1.1.getLast? hlast
      split at hspan
      · next hopens =>
        cases hspan
        obtain ⟨more, htext⟩ := List.isPrefixOf_iff_prefix.1 hopens
        rw [← htext] at hcomment
        exact absurd (Stands.head_eq hcomment hlonger) (by decide)
      · cases hspan
    | none =>
      rw [hdoc] at hlonger
      rcases hcases with rfl | hsign
      · exact not_declares_shorter hname hpart hcontiguous hlonger hdeclares
      · have htext : token.text = "@".toList := beq_iff_eq.1 (Bool.and_eq_true_iff.1 hsign).2
        have hstands := hplaced.1.2
        rw [htext] at hstands
        exact absurd (Stands.head_eq hstands hlonger) (by decide)
  | _ => cases hinterface

end InterfaceSchema
