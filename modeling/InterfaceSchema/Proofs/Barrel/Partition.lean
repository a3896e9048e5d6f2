import InterfaceSchema.Proofs.Barrel.Exports
import InterfaceSchema.Proofs.Naming

/-!
# Every export in one barrel

The names of a schema file are told apart by one question: does text follow some
separator in the name. Names without such a separator go to the index. The others
go to the details as soon as that separator has text before it, which is so unless
the name starts with it. Both barrels keep the order in which the names first
appear in the file.
-/

namespace InterfaceSchema.Barrel

open Naming

/-- An export of the name starts this many characters behind the start of the
file. -/
def ExportedAt (content name : Text) (position : Nat) : Prop :=
  ∃ (before after : Text) (head : Head), head.Proper ∧ head.name = name ∧
    content = before ++ (head.text ++ after) ∧ before.length = position

/-- The first name is exported before any export of the second one. -/
def Earlier (content first second : Text) : Prop :=
  ∃ position, ExportedAt content first position ∧
    ∀ other, ExportedAt content second other → position < other

variable {content name first second : Text} {position : Nat}

/-- An export stands as much further back as there is text before it. -/
theorem ExportedAt.behind (h : ExportedAt content name position) (front : Text) :
    ExportedAt (front ++ content) name (front.length + position) := by
  obtain ⟨before, after, head, hproper, hname, rfl, rfl⟩ := h
  exact ⟨front ++ before, after, head, hproper, hname, by rw [List.append_assoc],
    List.length_append⟩

/-- A name that is exported is found. -/
theorem ExportedAt.mem (h : ExportedAt content name position) : name ∈ allExports content := by
  obtain ⟨before, after, head, hproper, rfl, rfl, -⟩ := h
  exact mem_allExports hproper (List.suffix_append _ _)

/-- Where no export starts, all exports start later. -/
theorem ExportedAt.of_cons {c : Char} {rest : Text} (hnone : exportAt? (c :: rest) = none)
    (h : ExportedAt (c :: rest) name position) :
    ∃ earlier, position = 1 + earlier ∧ ExportedAt rest name earlier := by
  obtain ⟨before, after, head, hproper, hname, hsplit, rfl⟩ := h
  cases before with
  | nil =>
    rw [hsplit, List.nil_append, exportAt?_text hproper] at hnone
    cases hnone
  | cons d more =>
    obtain ⟨rfl, rfl⟩ := List.cons.inj hsplit
    exact ⟨more.length, Nat.add_comm _ _, more, after, head, hproper, hname, rfl, rfl⟩

/-- Behind an export, all exports of other names start later. -/
theorem ExportedAt.of_head {head : Head} {rest : Text} (hproper : head.Proper)
    (hne : head.name ≠ name) (h : ExportedAt (head.text ++ rest) name position) :
    ∃ earlier, position = head.text.length + earlier ∧ ExportedAt rest name earlier := by
  obtain ⟨before, after, other, hother, rfl, hsplit, rfl⟩ := h
  rcases hproper.front_or_behind hother hsplit with ⟨-, hname⟩ | ⟨middle, rfl, rfl⟩
  · exact absurd hname hne
  · exact ⟨middle.length, List.length_append, middle, after, other, hother, rfl, rfl, rfl⟩

/-- Order is kept behind more text, if the second name is not exported before the
old text. -/
theorem Earlier.behind {front : Text} (h : Earlier content first second)
    (hback : ∀ other, ExportedAt (front ++ content) second other →
      ∃ earlier, other = front.length + earlier ∧ ExportedAt content second earlier) :
    Earlier (front ++ content) first second := by
  obtain ⟨position, hfirst, hlater⟩ := h
  refine ⟨front.length + position, hfirst.behind front, fun other hother => ?_⟩
  obtain ⟨earlier, rfl, hearlier⟩ := hback other hother
  exact Nat.add_lt_add_left (hlater earlier hearlier) _

/-- The scan finds names in the order in which they are exported first. -/
theorem earlier_of_idxOf_lt (hmem : first ∈ allExports content)
    (h : (allExports content).idxOf first < (allExports content).idxOf second) :
    Earlier content first second := by
  induction content using scan_induction with
  | nil => exact absurd hmem List.not_mem_nil
  | skip c rest hnone ih =>
    rw [allExports_cons hnone] at hmem h
    exact @Earlier.behind rest first second [c] (ih hmem h) fun other hother =>
      hother.of_cons hnone
  | found head rest hproper ih =>
    rw [allExports_head hproper] at hmem h
    have hsecond : head.name ≠ second := by
      rintro rfl
      simp at h
    by_cases hfirst : head.name = first
    · refine ⟨0, ⟨[], rest, head, hproper, hfirst, rfl, rfl⟩, fun other hother => ?_⟩
      obtain ⟨earlier, rfl, -⟩ := hother.of_head hproper hsecond
      have hpos : 0 < head.text.length := by simp [Head.text_eq_cons]
      omega
    · rw [List.idxOf_cons_ne _ hfirst, List.idxOf_cons_ne _ hsecond] at h
      have hrest := (List.mem_cons.1 hmem).resolve_left (Ne.symm hfirst)
      exact (ih hrest (Nat.lt_of_succ_lt_succ h)).behind fun other hother =>
        hother.of_head hproper hsecond

/-- Without repetitions a list keeps the order of first appearance. -/
theorem pairwise_idxOf_eraseDups (names : List Text) :
    names.eraseDups.Pairwise fun first second => names.idxOf first < names.idxOf second := by
  induction names using List.reverseRecOn with
  | nil => exact List.Pairwise.nil
  | append_singleton names name ih =>
    have hkept : names.eraseDups.Pairwise fun first second =>
        (names ++ [name]).idxOf first < (names ++ [name]).idxOf second := by
      refine ih.imp_of_mem fun hfirst hsecond hlt => ?_
      rwa [List.idxOf_append_of_mem (List.mem_eraseDups.1 hfirst),
        List.idxOf_append_of_mem (List.mem_eraseDups.1 hsecond)]
    rw [List.eraseDups_append]
    by_cases hmem : name ∈ names
    · simpa [hmem, List.removeAll] using hkept
    · have hnew : ([name].removeAll names).eraseDups = [name] := by
        simp [hmem, List.removeAll, List.eraseDups_cons]
      rw [hnew]
      refine List.pairwise_append.2 ⟨hkept, List.pairwise_singleton _ _, ?_⟩
      intro first hfirst second hsecond
      obtain rfl := List.mem_singleton.1 hsecond
      have hold := List.mem_eraseDups.1 hfirst
      rw [List.idxOf_append_of_mem hold, List.idxOf_append_of_notMem hmem]
      have hlt := List.idxOf_lt_length_iff.2 hold
      omega

/-- A name that is found is exported. -/
theorem exists_exportedAt (h : name ∈ allExports content) :
    ∃ position, ExportedAt content name position := by
  induction content using scan_induction with
  | nil => exact absurd h List.not_mem_nil
  | skip c rest hnone ih =>
    rw [allExports_cons hnone] at h
    obtain ⟨position, hrest⟩ := ih h
    exact ⟨_, hrest.behind [c]⟩
  | found head rest hproper ih =>
    rw [allExports_head hproper] at h
    rcases List.mem_cons.1 h with rfl | hmem
    · exact ⟨0, [], rest, head, hproper, rfl, rfl, rfl⟩
    · obtain ⟨position, hrest⟩ := ih hmem
      exact ⟨_, hrest.behind head.text⟩

/-- The exports of a file are the names that are exported somewhere in it. -/
theorem mem_exports_iff :
    name ∈ exports content ↔ ∃ position, ExportedAt content name position := by
  rw [exports_eq, List.mem_eraseDups]
  exact ⟨exists_exportedAt, fun ⟨_, h⟩ => h.mem⟩

/-- No name is exported before itself. -/
theorem Earlier.ne (h : Earlier content first second) : first ≠ second := by
  rintro rfl
  obtain ⟨position, hfirst, hlater⟩ := h
  exact absurd (hlater position hfirst) (Nat.lt_irrefl _)

/-- The exports are in the order in which they first appear. -/
theorem pairwise_exports (content : Text) : (exports content).Pairwise (Earlier content) := by
  rw [exports_eq]
  refine (pairwise_idxOf_eraseDups _).imp_of_mem fun hfirst _ hlt => ?_
  exact earlier_of_idxOf_lt (List.mem_eraseDups.1 hfirst) hlt

/-- What counts as extracted does not count as primary. -/
theorem isPrimary_eq_false_of_isExtracted (h : isExtracted name = true) :
    isPrimary name = false := by
  obtain ⟨before, after, -, -, hafter, hname⟩ := (isExtracted_iff name).1 h
  rw [← Bool.not_eq_true, isPrimary_iff, not_not]
  exact ⟨before, after, hafter, hname⟩

/-- What does not count as primary counts as extracted, unless it starts with a
separator. -/
theorem isExtracted_of_isPrimary_eq_false (h : isPrimary name = false)
    (hlead : ¬separator <+: name) : isExtracted name = true := by
  rw [← Bool.not_eq_true, isPrimary_iff, not_not] at h
  obtain ⟨before, after, hafter, rfl⟩ := h
  refine (isExtracted_iff _).2 ⟨before, after, ?_, ?_, hafter, rfl⟩
  · rintro rfl
    exact hlead (List.prefix_append _ _)
  · -- the separator would share its first character with one at the start of the name
    rintro rfl
    exact hlead ⟨("properties_" : Text) ++ after, rfl⟩

/-- The names that are exported somewhere in a file go to the two barrels. Each
barrel holds its names in the order in which they first appear and each of them
once, no name is in both, and every name is in one of them unless it starts with
a separator. -/
theorem exports_partitioned (content : Text) :
    (∀ kind : BarrelKind, (kind.select (exports content)).Pairwise (Earlier content) ∧
        (kind.select (exports content)).Nodup) ∧
      (∀ name, name ∈ exports content ↔ ∃ position, ExportedAt content name position) ∧
      List.Disjoint (BarrelKind.index.select (exports content))
        (BarrelKind.details.select (exports content)) ∧
      ∀ name ∈ exports content, ¬separator <+: name →
        ((name ∈ BarrelKind.index.select (exports content) ∧
            name ∉ BarrelKind.details.select (exports content)) ∨
          (name ∉ BarrelKind.index.select (exports content) ∧
            name ∈ BarrelKind.details.select (exports content))) := by
  have hselect {kind : BarrelKind} {name : Text} :
      name ∈ kind.select (exports content) ↔ name ∈ exports content ∧ kind.includes name = true :=
    List.mem_filter
  have hdisjoint : List.Disjoint (BarrelKind.index.select (exports content))
      (BarrelKind.details.select (exports content)) := by
    intro name hindex hdetails
    have hprimary : isPrimary name = true := (hselect.1 hindex).2
    rw [isPrimary_eq_false_of_isExtracted (hselect.1 hdetails).2] at hprimary
    cases hprimary
  refine ⟨fun kind => ?_, fun name => mem_exports_iff, hdisjoint, fun name hmem hlead => ?_⟩
  · have horder : (kind.select (exports content)).Pairwise (Earlier content) :=
      (pairwise_exports content).filter _
    exact ⟨horder, horder.imp Earlier.ne⟩
  · cases hprimary : isPrimary name with
    | true =>
      have hindex : name ∈ BarrelKind.index.select (exports content) :=
        hselect.2 ⟨hmem, hprimary⟩
      exact .inl ⟨hindex, hdisjoint hindex⟩
    | false =>
      have hdetails : name ∈ BarrelKind.details.select (exports content) :=
        hselect.2 ⟨hmem, isExtracted_of_isPrimary_eq_false hprimary hlead⟩
      exact .inr ⟨fun hindex => hdisjoint hindex hdetails, hdetails⟩

/-- A file that exports one name twice and another one with two separators that
overlap. -/
theorem exports_partitioned_overlapping :
    let content : Text :=
      "export type A = B\nexport const A_properties_properties_b = 1\nexport interface A \x7b"
    let name : Text := "A_properties_properties_b"
    exports content = ["A".toList, name] ∧ ¬separator <+: name ∧
      name ∉ BarrelKind.index.select (exports content) ∧
      name ∈ BarrelKind.details.select (exports content) := by
  intro content name
  have hexports : exports content = ["A".toList, name] := by decide +kernel
  have hmem : name ∈ exports content := by
    rw [hexports]
    exact List.mem_cons_of_mem _ List.mem_cons_self
  have hlead : ¬separator <+: name := by decide
  obtain ⟨-, -, -, hone⟩ := exports_partitioned content
  refine ⟨hexports, hlead, ?_⟩
  rcases hone name hmem hlead with ⟨hindex, -⟩ | hdetails
  · have hprimary : isPrimary name = true := (List.mem_filter.1 hindex).2
    exact absurd hprimary (by decide)
  · exact hdetails

end InterfaceSchema.Barrel
