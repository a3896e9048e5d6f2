import InterfaceSchema.Proofs.Disk.Routes
import Mathlib.Data.List.Sort

/-!
# Source files that are listed

A source file that is listed is found by its path, because the directories
between it and the directory that is searched are there. Source files are
listed in the order of their places, so the same source files give the same
list.
-/

namespace InterfaceSchema.FileTree

open Disk

/-- A place below which every file stands in directories. -/
def Paved (tree : FileTree) (place : Place) : Prop :=
  ∀ list content, tree.node? (place ++ list) = some (.file content) →
    ∀ above, above <+: list → above ≠ list → tree.node? (place ++ above) = some .directory

section Paved

variable {touched : Place → Prop} {tree later : FileTree} {place : Place}

/-- Everything stands in directories, wherever one starts. -/
theorem Rooted.paved (hrooted : tree.Rooted) (place : Place) : tree.Paved place := by
  rintro list content hnode above ⟨below, rfl⟩ hne
  have hbelow : below ≠ [] := by
    rintro rfl
    exact hne (by simp)
  exact hrooted.directory hbelow (by rwa [List.append_assoc])

/-- A tree is rooted if each of its entries lies in a directory. -/
theorem WellFormed.rooted (htree : tree.WellFormed)
    (h : ∀ entry ∈ tree.nodes, tree.node? entry.1.dropLast = some .directory) : tree.Rooted := by
  intro above name node hnode
  have hmem := htree.mem_nodes.2 ⟨by simp, hnode⟩
  have hdirectory := h _ hmem
  rwa [List.dropLast_concat] at hdirectory

/-- Removing a place leaves everything else in its directories. -/
theorem Rooted.remove (hrooted : tree.Rooted) (place : Place) : (tree.remove place).Rooted := by
  intro above name node hnode
  rw [node?_remove] at hnode ⊢
  split at hnode
  · cases hnode
  · next hkept =>
    have hkeptAbove : ¬(place <+: above ∧ above ≠ []) := fun ⟨hfront, _⟩ =>
      hkept ⟨hfront.trans (List.prefix_append _ _), by simp⟩
    rw [if_neg hkeptAbove]
    exact hrooted above name node hnode

/-- Directories that are there stay on the way to files, old and new ones. -/
theorem Paved.grows (hpaved : tree.Paved place) (hgrows : Grows touched tree later)
    (hnew : ∀ list, touched (place ++ list) → ∀ above, above <+: list → above ≠ list →
      later.node? (place ++ above) = some .directory) : later.Paved place := by
  intro list content hnode above habove hne
  by_cases htouched : touched (place ++ list)
  · exact hnew list htouched above habove hne
  · have hold := (hgrows.untouched _ content htouched).1 hnode
    exact hgrows.directory _ (hpaved list content hold above habove hne)

end Paved

section Found

variable {tree : FileTree} {directory : Path} {list : List Text} {place : Place}
  {content : Content}

/-- The names of a directory that count enter what its path enters. -/
theorem route_countedNames (current : Place) (directory : Path) (list : List Text) :
    Place.route (if startsAtRoot directory then [] else current) (countedNames directory ++ list) =
      directory.searched.route current ++
        Place.route (directory.searched.place current) list := by
  rw [Place.route_append, countedNames, Place.route_filter, Place.follow_filter, Path.searched]
  by_cases hempty : directory.text.isEmpty
  · obtain ⟨text⟩ := directory
    obtain rfl := List.isEmpty_iff.1 hempty
    rfl
  · rw [if_neg hempty, Path.route, Path.place, Path.start, startsAtRoot]
    simp [hempty]

/-- Names with slashes between them end as the last one does. -/
theorem getLast?_joinWith {list : List Text} (hlist : list ≠ []) (hne : list.getLast hlist ≠ []) :
    (Text.joinWith "/" list).getLast? = (list.getLast hlist).getLast? := by
  conv_lhs => rw [← List.dropLast_concat_getLast hlist]
  exact Text.getLast?_joinWith "/" _ hne

/-- The path to a source file asks for no directory. -/
theorem wantsDirectory_join_names {text : Text} (h : LeadDown list) :
    wantsDirectory ⟨text ++ Text.joinWith "/" list⟩ = false := by
  have hlast := h.isName _ (List.getLast_mem h.ne_nil)
  have hslash : (list.getLast h.ne_nil).getLast hlast.ne_nil ≠ '/' := fun heq =>
    hlast.slash (heq ▸ List.getLast_mem hlast.ne_nil)
  rw [wantsDirectory, List.getLast?_append, getLast?_joinWith h.ne_nil hlast.ne_nil,
    List.getLast?_eq_some_getLast hlast.ne_nil]
  simpa using hslash

/-- The path to a source file leads through the directory that was searched. -/
theorem find_sourcePath_iff (h : LeadDown list) :
    tree.find (sourcePath directory list) = .ok (place, .file content) ↔
      place = directory.searched.place tree.current ++ list ∧
        tree.node? place = some (.file content) ∧
        (∀ entered ∈ directory.searched.route tree.current,
          tree.node? entered = some .directory) ∧
        ∀ below, below ≠ [] → below <+: list → below ≠ list →
          tree.node? (directory.searched.place tree.current ++ below) = some .directory := by
  have hlist : list = list.dropLast ++ [list.getLast h.ne_nil] :=
    (List.dropLast_append_getLast h.ne_nil).symm
  have hdrop : ∀ name ∈ list.dropLast, IsName name := fun name hname =>
    h.isName name (List.dropLast_subset _ hname)
  have hnames : names (sourcePath directory list) =
      (countedNames directory ++ list.dropLast) ++ [list.getLast h.ne_nil] := by
    rw [names_sourcePath directory h, List.append_assoc, ← hlist]
  rw [find_file_route hnames (h.isName _ (List.getLast_mem h.ne_nil))
    (wantsDirectory_join_names h), place_sourcePath tree.current directory h, Path.start,
    isAbsolute_sourcePath directory h, route_countedNames]
  simp only [List.mem_append, Place.mem_route_names hdrop, or_imp, forall_and]
  constructor
  · rintro ⟨hplace, hnode, hsearched, hbelow⟩
    refine ⟨hplace, hnode, hsearched, fun below hne hfront hshort => ?_⟩
    exact hbelow _ ⟨below, hne, Place.prefix_dropLast hfront hshort, rfl⟩
  · rintro ⟨hplace, hnode, hsearched, hbelow⟩
    refine ⟨hplace, hnode, hsearched, ?_⟩
    rintro entered ⟨below, hne, hfront, rfl⟩
    refine hbelow below hne (hfront.trans (List.dropLast_prefix _)) fun heq => ?_
    have hlength := hfront.length_le
    rw [heq, List.length_dropLast] at hlength
    have hpos := List.length_pos_iff.2 h.ne_nil
    omega

/-- A source file that is listed is found. -/
theorem find_sourcePath (hfind : tree.find directory.searched = .ok (place, .directory))
    (hpaved : tree.Paved place) (h : LeadDown list)
    (hnode : tree.node? (place ++ list) = some (.file content)) :
    tree.find (sourcePath directory list) = .ok (place ++ list, .file content) := by
  obtain ⟨-, hplace, hroute⟩ := find_directory_route.1 hfind
  subst hplace
  exact (find_sourcePath_iff h).2 ⟨rfl, hnode, hroute, fun below _ hfront hshort =>
    hpaved list content hnode below hfront hshort⟩

end Found

section Order

variable {first second : List Text} {tree later : FileTree}

/-- Names sort like the places they lead to from a directory. -/
theorem append_lt_append_iff (place : Place) :
    place ++ first < place ++ second ↔ first < second := by
  induction place with
  | nil => rfl
  | cons name rest ih =>
    rw [List.cons_append, List.cons_append, List.cons_lt_cons_iff]
    simpa using ih

/-- Source files are listed in the order of their places. -/
theorem WellFormed.sorted_sources (htree : tree.WellFormed) (directory : Path) :
    (sources tree directory).Pairwise (· < ·) := by
  refine List.Pairwise.filter _ ?_
  rw [filesBelow]
  split
  · next place _ =>
    refine List.Pairwise.filterMap (fileBelow? place) ?_ htree.sorted
    rintro ⟨first, _ | held⟩ ⟨second, _ | other⟩ hlt one hone two htwo <;>
      simp only [fileBelow?, reduceCtorEq] at hone htwo
    split at hone
    · next hfirst =>
      split at htwo
      · next hsecond =>
        cases hone
        cases htwo
        rwa [← append_lt_append_iff place,
          List.prefix_iff_eq_append.1 (List.isPrefixOf_iff_prefix.1 hfirst),
          List.prefix_iff_eq_append.1 (List.isPrefixOf_iff_prefix.1 hsecond)]
      · cases htwo
    · cases hone
  · exact List.Pairwise.nil

/-- The same source files give the same list. -/
theorem WellFormed.sources_eq (htree : tree.WellFormed) (hlater : later.WellFormed)
    {directory : Path}
    (h : ∀ list, list ∈ sources later directory ↔ list ∈ sources tree directory) :
    sources later directory = sources tree directory :=
  (hlater.sorted_sources directory).eq_of_mem_iff (htree.sorted_sources directory) h

end Order

end InterfaceSchema.FileTree
