import InterfaceSchema.Proofs.Disk.Listing
import Mathlib.Data.List.DropRight

/-!
# The path above a path

A path is made up of its lead and its pieces, and the path above it is cut out
of its spelling: what is cut off is one name that counts, with single dots and
slashes around it.
-/

namespace InterfaceSchema

open FileTree

/-- The names of what a path starts with. -/
def Path.Lead.names : Path.Lead → List Text
  | none => []
  | root => []
  | here => ["."]

/-- A path that does not end with a single dot, unless it has no other
names. -/
def Path.Trimmed (path : Path) : Prop :=
  (names path).getLast? = some ".".toList → ∀ name ∈ names path, name = ".".toList

/-- What a path has in common with the path above it. -/
structure Path.Extends (path parent : Path) (before : List Text) (name : Text)
    (after : List Text) : Prop where
  names : FileTree.names path = FileTree.names parent ++ before ++ name :: after
  before : ∀ dot ∈ before, dot = ".".toList
  after : ∀ dot ∈ after, dot = ".".toList
  ne_here : name ≠ ".".toList
  isAbsolute : parent.isAbsolute = path.isAbsolute
  length : parent.text.length < path.text.length
  trimmed : parent.Trimmed

/-- Pieces that may stand behind a lead: they hold no slashes, and the first one
is empty behind a dot. -/
structure Path.Lead.Precedes (lead : Path.Lead) (pieces : List Text) : Prop where
  slash : ∀ piece ∈ pieces, '/' ∉ piece
  here : lead = .here → pieces ≠ [] → pieces.head? = some []

section Pieces

variable {lead : Path.Lead} {path parent : Path} {pieces first second : List Text}

/-- The first of such pieces. -/
theorem Path.Lead.Precedes.of_front (h : lead.Precedes second) (hfirst : first <+: second) :
    lead.Precedes first := by
  refine ⟨fun piece hpiece => h.slash piece (hfirst.subset hpiece), fun hlead hne => ?_⟩
  obtain ⟨piece, more, rfl⟩ := List.exists_cons_of_ne_nil hne
  obtain ⟨rest, rfl⟩ := hfirst
  exact h.here hlead (by simp)

/-- The pieces between slashes make up the text again. -/
theorem joinWith_splitSlashes (text : Text) :
    Text.joinWith "/" (Path.splitSlashes text) = text := by
  induction text with
  | nil => rfl
  | cons c rest ih =>
    rw [Path.splitSlashes]
    cases hpieces : Path.splitSlashes rest with
    | nil => exact absurd hpieces (splitSlashes_ne_nil rest)
    | cons piece more =>
      rw [hpieces] at ih
      split
      · next hc =>
        rw [← ih, hc, joinWith_names]
        rfl
      · rw [← ih]
        cases more with
        | nil => simp
        | cons next others => rw [joinWith_names, joinWith_names, List.cons_append]

/-- Pieces behind pieces, with slashes between them. -/
theorem joinWith_append (hfirst : first ≠ []) (hsecond : second ≠ []) :
    Text.joinWith "/" (first ++ second) =
      Text.joinWith "/" first ++ '/' :: Text.joinWith "/" second :=
  Text.joinWith_append "/" hfirst hsecond

/-- A path is made up of its lead and its pieces. -/
theorem unsplit_split (path : Path) : Path.unsplit path.split.1 path.split.2 = path := by
  obtain ⟨text⟩ := path
  rw [Path.split, Path.unsplit]
  dsimp only
  split
  · next rest => rw [joinWith_splitSlashes]; rfl
  · rfl
  · next rest =>
    have hrest : Text.joinWith "/" ([] :: Path.splitSlashes rest) =
        '/' :: Text.joinWith "/" (Path.splitSlashes rest) :=
      @joinWith_append [[]] _ (List.cons_ne_nil [] []) (splitSlashes_ne_nil rest)
    rw [hrest, joinWith_splitSlashes]
    rfl
  · rw [joinWith_splitSlashes]; rfl

/-- The pieces of a path stand behind its lead. -/
theorem precedes_split (path : Path) : path.split.1.Precedes path.split.2 := by
  obtain ⟨text⟩ := path
  rw [Path.split]
  dsimp only
  split
  · next rest => exact ⟨slash_notMem_splitSlashes rest, by simp⟩
  · exact ⟨by simp, fun _ _ => rfl⟩
  · next rest =>
    refine ⟨fun piece hpiece => ?_, fun _ _ => rfl⟩
    rcases List.mem_cons.1 hpiece with rfl | hpiece
    · simp
    · exact slash_notMem_splitSlashes rest piece hpiece
  · exact ⟨slash_notMem_splitSlashes _, by simp⟩

/-- The names of pieces with slashes between them. -/
theorem names_joinPieces (h : ∀ piece ∈ pieces, '/' ∉ piece) :
    names ⟨Text.joinWith "/" pieces⟩ = pieces.filter fun piece => !piece.isEmpty := by
  cases pieces with
  | nil => rfl
  | cons piece rest => rw [names, Disk.splitSlashes_joinWith (by simp) h]

/-- The names of a path with these pieces. -/
theorem names_unsplit (h : lead.Precedes pieces) :
    names (Path.unsplit lead pieces) =
      lead.names ++ pieces.filter fun piece => !piece.isEmpty := by
  cases lead with
  | none => exact names_joinPieces h.slash
  | root => exact (names_append [] _).trans (names_joinPieces h.slash)
  | here =>
    rcases pieces with _ | ⟨piece, _ | ⟨other, more⟩⟩
    · rfl
    · obtain rfl : piece = [] := by simpa using h.here rfl (by simp)
      rfl
    · obtain rfl : piece = [] := by simpa using h.here rfl (by simp)
      have htext : Text.joinWith "/" ([] :: other :: more) =
          '/' :: Text.joinWith "/" (other :: more) :=
        @joinWith_append [[]] _ (List.cons_ne_nil [] []) (List.cons_ne_nil other more)
      have hmore : ∀ piece ∈ other :: more, '/' ∉ piece := fun piece hpiece =>
        h.slash piece (List.mem_cons_of_mem _ hpiece)
      rw [Path.unsplit, htext]
      exact (names_append ['.'] _).trans (by rw [names_joinPieces hmore]; rfl)

/-- The names of a path are those of its lead and its pieces. -/
theorem names_eq_lead_append (path : Path) :
    names path = path.split.1.names ++ path.split.2.filter fun piece => !piece.isEmpty := by
  have hnames := names_unsplit (precedes_split path)
  rwa [unsplit_split] at hnames

/-- Fewer pieces make up the start of the text. -/
theorem text_unsplit_append (lead : Path.Lead) (first second : List Text) :
    (Path.unsplit lead first).text <+: (Path.unsplit lead (first ++ second)).text := by
  refine List.prefix_append_right_inj _ |>.2 ?_
  by_cases hfirst : first = []
  · rw [hfirst]
    exact List.nil_prefix
  · by_cases hsecond : second = []
    · simp [hsecond]
    · exact joinWith_append hfirst hsecond ▸ List.prefix_append ..

/-- Pieces that do not count are empty or single dots. -/
theorem eq_of_component?_isNone {piece : Text} (h : (Path.component? piece).isNone)
    (hne : piece ≠ []) : piece = ".".toList := by
  by_contra hdot
  obtain ⟨component, hsome, -⟩ := Disk.component?_isSome hne hdot
  rw [hsome] at h
  cases h

/-- What is trimmed off pieces does not count. -/
theorem trimPieces_append (pieces : List Text) : ∃ blanks, pieces = Path.trimPieces pieces ++ blanks ∧
    ∀ name ∈ blanks.filter (fun piece => !piece.isEmpty), name = ".".toList := by
  refine ⟨pieces.rtakeWhile fun piece => (Path.component? piece).isNone,
    (List.rdropWhile_append_rtakeWhile ..).symm, fun name hname => ?_⟩
  obtain ⟨hmem, hne⟩ := List.mem_filter.1 hname
  have hnone := List.mem_rtakeWhile_imp (p := fun piece => (Path.component? piece).isNone) hmem
  exact eq_of_component?_isNone hnone (by simpa using hne)

/-- The last piece that is left counts. -/
theorem getLast_trimPieces (h : Path.trimPieces pieces ≠ []) :
    (Path.trimPieces pieces).getLast h ≠ [] ∧ (Path.trimPieces pieces).getLast h ≠ ".".toList := by
  have hlast : ¬(Path.component? ((Path.trimPieces pieces).getLast h)).isNone :=
    List.rdropWhile_last_not (fun piece => (Path.component? piece).isNone) pieces h
  constructor
  · intro heq
    exact hlast (by rw [heq]; rfl)
  · intro heq
    exact hlast (by rw [heq]; rfl)

/-- The names of pieces whose last one counts. -/
theorem filter_eq_append (h : Path.trimPieces pieces ≠ []) :
    (Path.trimPieces pieces).filter (fun piece => !piece.isEmpty) =
      (Path.trimPieces pieces).dropLast.filter (fun piece => !piece.isEmpty) ++
        [(Path.trimPieces pieces).getLast h] := by
  obtain ⟨hne, -⟩ := getLast_trimPieces h
  conv_lhs => rw [← List.dropLast_append_getLast h]
  rw [List.filter_append]
  simpa using hne

/-- Trimmed pieces make up a trimmed path. -/
theorem trimmed_unsplit (h : lead.Precedes (Path.trimPieces pieces)) :
    (Path.unsplit lead (Path.trimPieces pieces)).Trimmed := by
  intro hlast
  rw [names_unsplit h] at hlast ⊢
  by_cases hnil : Path.trimPieces pieces = []
  · rw [hnil]
    cases lead <;> simp [Path.Lead.names]
  · -- the last piece counts, so it is no single dot
    obtain ⟨-, hdot⟩ := getLast_trimPieces hnil
    rw [filter_eq_append hnil, ← List.append_assoc, List.getLast?_concat] at hlast
    exact absurd (Option.some.inj hlast) hdot

end Pieces

section Parents

variable {path parent : Path}

/-- A path without pieces that count has single dots only. -/
theorem names_of_trimPieces_nil (h : Path.trimPieces path.split.2 = []) :
    ∀ name ∈ names path, name = ".".toList := by
  obtain ⟨blanks, hpieces, hblanks⟩ := trimPieces_append path.split.2
  rw [h, List.nil_append] at hpieces
  intro name hname
  rw [names_eq_lead_append, hpieces, List.mem_append] at hname
  rcases hname with hname | hname
  · cases hlead : path.split.1 <;> rw [hlead] at hname <;>
      simp only [Path.Lead.names, List.not_mem_nil, List.mem_singleton] at hname
    exact hname
  · exact hblanks name hname

/-- A path without parent has single dots only. -/
theorem names_of_parent?_none (h : path.parent? = none) :
    ∀ name ∈ names path, name = ".".toList := by
  rw [Path.parent?] at h
  dsimp only at h
  split at h
  · cases h
  · next hnil _ => exact names_of_trimPieces_nil hnil
  · cases h

/-- A path that is cut out of a spelling lies above the path. -/
theorem extends_of_pieces {lead : Path.Lead} {first second : List Text} {name : Text}
    {before after : List Text} (hpath : path = Path.unsplit lead (first ++ second))
    (hnames : names path = names (Path.unsplit lead first) ++ before ++ name :: after)
    (hbefore : ∀ dot ∈ before, dot = ".".toList) (hafter : ∀ dot ∈ after, dot = ".".toList)
    (hname : name ≠ ".".toList) (htrimmed : (Path.unsplit lead first).Trimmed)
    (hlead : path.isAbsolute = decide (lead = .root)) :
    path.Extends (Path.unsplit lead first) before name after := by
  have hprefix : (Path.unsplit lead first).text <+: path.text := by
    rw [hpath]
    exact text_unsplit_append lead first second
  refine ⟨hnames, hbefore, hafter, hname, ?_, ?_, htrimmed⟩
  · cases lead with
    | root => exact hlead.symm
    | here => exact hlead.symm
    | none =>
      obtain ⟨rest, hrest⟩ := hprefix
      rw [hlead]
      have hfalse := hlead
      rw [Path.isAbsolute, ← hrest] at hfalse
      rw [Path.isAbsolute]
      cases htext : (Path.unsplit .none first).text with
      | nil => rfl
      | cons c more =>
        rw [htext] at hfalse
        exact hfalse
  · -- paths of the same text have the same names
    refine lt_of_le_of_ne hprefix.length_le fun hlength => ?_
    have htext := hprefix.eq_of_length hlength
    have hsame : Path.unsplit lead first = path := congrArg Path.mk htext
    rw [hsame] at hnames
    have hlengths := congrArg List.length hnames
    simp only [List.length_append, List.length_cons] at hlengths
    omega

/-- The path above a path has all its names but one, unless none of them
counts. -/
theorem extends_of_parent? (h : path.parent? = some parent) :
    ((∀ name ∈ names path, name = ".".toList) ∧ path.text.head? = some '.' ∧ parent = ⟨[]⟩) ∨
      ∃ before name after, path.Extends parent before name after := by
  rw [Path.parent?] at h
  dsimp only at h
  split at h
  · next hnil hlead =>
    have hhead : path.text.head? = some '.' := by
      rw [← unsplit_split path, hlead]
      rfl
    exact .inl ⟨names_of_trimPieces_nil hnil, hhead, (Option.some.inj h).symm⟩
  · cases h
  · next hhead hsome =>
    have hnil : Path.trimPieces path.split.2 ≠ [] := by
      intro hnil
      by_cases hlead : path.split.1 = .here
      · exact hsome hnil hlead
      · exact hhead hnil
    obtain rfl := Option.some.inj h
    -- the pieces are those above, single dots, a name and single dots again
    obtain ⟨after, hpieces, hafter⟩ := trimPieces_append path.split.2
    obtain ⟨before, hkept, hbefore⟩ := trimPieces_append (Path.trimPieces path.split.2).dropLast
    obtain ⟨hne, hdot⟩ := getLast_trimPieces hnil
    have hlast := (List.dropLast_append_getLast hnil).symm
    have hall : path.split.2 = Path.trimPieces (Path.trimPieces path.split.2).dropLast ++
        (before ++ (Path.trimPieces path.split.2).getLast hnil :: after) := by
      conv_lhs => rw [hpieces, hlast, hkept]
      simp
    have hproper := (precedes_split path).of_front ⟨_, hall.symm⟩
    have hnames : names path =
        names (Path.unsplit path.split.1
          (Path.trimPieces (Path.trimPieces path.split.2).dropLast)) ++
        before.filter (fun piece => !piece.isEmpty) ++
        (Path.trimPieces path.split.2).getLast hnil ::
          after.filter (fun piece => !piece.isEmpty) := by
      rw [names_eq_lead_append, names_unsplit hproper]
      conv_lhs => rw [hall]
      simp [hne]
    have hpath : path = Path.unsplit path.split.1
        (Path.trimPieces (Path.trimPieces path.split.2).dropLast ++
          (before ++ (Path.trimPieces path.split.2).getLast hnil :: after)) := by
      rw [← hall, unsplit_split]
    exact .inr ⟨_, _, _, extends_of_pieces hpath hnames hbefore hafter hdot (trimmed_unsplit hproper)
      (Disk.isAbsolute_eq_split path)⟩

end Parents

end InterfaceSchema
