import InterfaceSchema.Config.Discover
import InterfaceSchema.Disk.FileTree
import InterfaceSchema.Proofs.Disk.Parents
import InterfaceSchema.Proofs.Disk.Steps
import InterfaceSchema.Proofs.Specifier.Resolution
import Mathlib.Data.List.Infix

/-!
# The file that decides a search

Configuration files are looked for in a directory, then in the one above it and so
on, under several names in each. The first file that is found decides what the search
gives, unless it describes a package and holds no configuration. Where it stands and
what it holds is all that counts: nothing behind it is looked at.
-/

namespace InterfaceSchema

open FileTree

/-- A path, the path above it, and so on up to one that nothing is above. -/
inductive Path.Ascends : Path → List Path → Prop
  | top {path : Path} : path.parent? = none → Ascends path [path]
  | step {path parent : Path} {above : List Path} : path.parent? = some parent →
    Ascends parent above → Ascends path (path :: above)

/-- The text is a JSON document without an entry for the configuration. -/
structure Config.Omitted (content : Text) : Prop where
  wellFormed : complete (Json.Document.read content) (Value.useAll packageDepth) = .ok ()
  noEntry : ∀ entries span, (Json.Document.read content).root = .table entries span →
    ∀ entry ∈ entries, entry.key ≠ .ok ConfigFormat.packageKey

namespace ConfigFile

/-- A file with this content is passed over: it describes a package and holds no
configuration. -/
def PassedOver (path : Path) (content : Content) : Prop :=
  path.fileName? = some ConfigFormat.packageFile ∧
    ∃ text, content = .text text ∧ Config.Omitted text

/-- What a configuration file with this content gives: its configuration, or what is
wrong with it. -/
inductive Gives (path : Path) : Content → Except LoadError ConfigFile → Prop
  | unreadable (bytes : List UInt8) : Gives path (.bytes bytes) (.error (.unreadable path .notText))
  | faulty {text : Text} {error : ConfigError} :
    Config.read? (.detect path text) text = .error error →
      Gives path (.text text) (.error (.faulty path text error))
  | found {text : Text} {config : Config} :
    Config.read? (.detect path text) text = .ok (some config) →
      Gives path (.text text) (.ok ⟨path, text, config⟩)

/-- There is a file that is not passed over, so a search ends here. -/
def Decisive (tree : FileTree) (path : Path) : Prop :=
  ∃ content, tree.read path = .ok content ∧ ¬PassedOver path content

/-- What the search among files gives on a tree, and the tree it leaves behind. -/
def searched (tree : FileTree) (paths : List Path) :
    Except LoadError (Option ConfigFile) × FileTree :=
  Id.run ((firstOf paths : LoadM (StateM FileTree) (Option ConfigFile)).run tree)

end ConfigFile

section Omission

variable {key content : Text} {entries before : List Entry} {value : Value}

/-- Two keys are the same if they are one text. -/
theorem Entry.sameKey_iff {first second : Except Fault Text} :
    Entry.sameKey first second = true ↔ ∃ key, first = .ok key ∧ second = .ok key := by
  cases first with
  | error => simp [Entry.sameKey]
  | ok first =>
    cases second with
    | error => simp [Entry.sameKey]
    | ok second => simpa [Entry.sameKey] using eq_comm

/-- A key is missing among entries with one more put in if it is missing among them and
is not that of the entry. -/
theorem Entry.forall_insert {entry : Entry} :
    (∀ other ∈ Entry.insert entry entries, other.key ≠ .ok key) ↔
      entry.key ≠ .ok key ∧ ∀ other ∈ entries, other.key ≠ .ok key := by
  induction entries with
  | nil => simp [Entry.insert]
  | cons head rest ih =>
    rw [Entry.insert]
    split
    · next hsame =>
      obtain ⟨shared, hentry, hhead⟩ := Entry.sameKey_iff.1 hsame
      simp [hentry, hhead]
    split
    · simp
    · rw [List.forall_mem_cons, List.forall_mem_cons, ih]
      exact and_left_comm

/-- Sorting loses no key. -/
theorem Value.forall_sortedEntries :
    (∀ entry ∈ Value.sortedEntries before entries, entry.key ≠ .ok key) ↔
      (∀ entry ∈ before, entry.key ≠ .ok key) ∧ ∀ entry ∈ entries, entry.key ≠ .ok key := by
  induction entries generalizing before with
  | nil => simp [Value.sortedEntries]
  | cons entry rest ih =>
    obtain ⟨own, afterKey, value⟩ := entry
    rw [Value.sortedEntries, ih, Entry.forall_insert, List.forall_mem_cons, and_assoc,
      and_left_comm]

/-- A value has no member for a key that no entry has. -/
theorem Config.member?_sorted_eq_none_iff : Config.member? key value.sorted = none ↔
    ∀ entries span, value = .table entries span → ∀ entry ∈ entries, entry.key ≠ .ok key := by
  cases value with
  | table entries span =>
    have hkey (found : Except Fault Text) :
        Entry.sameKey found (.ok key) = true ↔ found = .ok key := by simp [Entry.sameKey_iff]
    have hsorted := @Value.forall_sortedEntries key entries []
    simp only [List.not_mem_nil, false_imp_iff, implies_true, true_and] at hsorted
    rw [Value.sorted, Config.member?, Option.map_eq_none_iff, List.find?_eq_none]
    simp only [hkey, hsorted, Value.table.injEq, and_imp]
    exact ⟨fun h _ _ hentries _ => hentries ▸ h, fun h => h entries span rfl rfl⟩
  | _ => simp [Value.sorted, Config.member?]

/-- The description of a package holds no configuration if there is no entry for it. -/
theorem Config.ofPackage_eq_none_iff :
    Config.ofPackage content = .ok none ↔ Config.Omitted content := by
  have hmember := @Config.member?_sorted_eq_none_iff ConfigFormat.packageKey
    (Json.Document.read content).root
  simp only [Config.ofPackage, bind, Except.bind]
  cases hcomplete : Config.complete (Json.Document.read content)
      (Value.useAll Config.packageDepth) with
  | error fault =>
    refine ⟨fun h => (nomatch h), fun h => ?_⟩
    rw [h.wellFormed] at hcomplete
    cases hcomplete
  | ok used =>
    simp only [Except.mapError]
    cases hpart : Config.member? ConfigFormat.packageKey (Json.Document.read content).root.sorted with
    | none => exact iff_of_true rfl ⟨hcomplete, hmember.1 hpart⟩
    | some part =>
      refine ⟨fun h => ?_, fun h => ?_⟩
      · dsimp only at h
        cases hread : ConfigForm.read .counted part with
        | error fault =>
          rw [hread] at h
          cases h
        | ok config =>
          rw [hread] at h
          cases h
      · rw [hmember.2 h.noEntry] at hpart
        cases hpart

/-- What is read is a configuration that has been accepted, or the description of a package
without one. -/
theorem Config.cases_of_read? {format : ConfigFormat} {found : Option Config}
    (h : Config.read? format content = .ok found) :
    (format = .package ∧ Config.ofPackage content = .ok none ∧ found = none) ∨
      ∃ config accepted, Config.validate config = .ok accepted ∧ found = some accepted := by
  have haccepted {config : Config} (h : (Config.validate config).map some = .ok found) :
      ∃ config accepted, Config.validate config = .ok accepted ∧ found = some accepted := by
    cases hvalid : Config.validate config with
    | error error =>
      rw [hvalid] at h
      cases h
    | ok accepted =>
      rw [hvalid] at h
      exact ⟨config, accepted, hvalid, (Except.ok.inj h).symm⟩
  unfold Config.read? at h
  cases format with
  | toml =>
    cases hread : Config.ofToml content with
    | error error =>
      rw [hread] at h
      cases h
    | ok config =>
      rw [hread] at h
      exact .inr (haccepted h)
  | json =>
    cases hread : Config.ofJson content with
    | error error =>
      rw [hread] at h
      cases h
    | ok config =>
      rw [hread] at h
      exact .inr (haccepted h)
  | package =>
    rcases hread : Config.ofPackage content with error | _ | config
    · rw [hread] at h
      cases h
    · rw [hread] at h
      exact .inl ⟨rfl, rfl, (Except.ok.inj h).symm⟩
    · rw [hread] at h
      exact .inr (haccepted h)

/-- A text holds no configuration only if it describes a package. -/
theorem Config.read?_eq_none_iff {format : ConfigFormat} :
    Config.read? format content = .ok none ↔ format = .package ∧ Config.Omitted content := by
  refine ⟨fun h => ?_, ?_⟩
  · rcases Config.cases_of_read? h with ⟨rfl, hnone, -⟩ | ⟨config, accepted, -, hsome⟩
    · exact ⟨rfl, Config.ofPackage_eq_none_iff.1 hnone⟩
    · cases hsome
  · rintro ⟨rfl, homitted⟩
    unfold Config.read?
    rw [Config.ofPackage_eq_none_iff.2 homitted]
    rfl

end Omission

namespace ConfigFile

section Search

variable {tree : FileTree} {path : Path} {rest : List Path} {content : Content}
  {cause : DiskError} {result : Except LoadError ConfigFile}

/-- Whether a path leads to a file is asked first. -/
theorem run_isFile (tree : FileTree) (path : Path) :
    Id.run ((ExceptT.lift (Disk.isFile path) : LoadM (StateM FileTree) Bool).run tree) =
      (.ok (tree.read path).toBool, tree) := rfl

/-- The text of a file is read, or it is said why it cannot be. -/
theorem run_contentOf (tree : FileTree) (path : Path) :
    Id.run ((contentOf path : LoadM (StateM FileTree) Text).run tree) =
      ((tree.readText path).mapError (.unreadable path), tree) := by
  have hstep : (Disk.readText path : StateM FileTree (Except DiskError Text)) tree =
      (tree.readText path, tree) := rfl
  simp only [contentOf, ExceptT.mk, ExceptT.run, bind, StateT.bind, Id.run, hstep]
  cases tree.readText path <;> rfl

/-- Opening a file gives what its content gives. -/
theorem run_openAt (hread : tree.read path = .ok content) (h : Gives path content result) :
    Id.run ((openAt path : LoadM (StateM FileTree) ConfigFile).run tree) = (result, tree) := by
  rw [openAt, Disk.run_bind, run_contentOf, readText, hread]
  cases h with
  | unreadable bytes => rfl
  | @faulty text error herror =>
    have hfaulty : ConfigFile.read (.detect path text) path text = .error error := by
      rw [ConfigFile.read, herror]
      rfl
    simp only [bind, Except.bind, Except.mapError, hfaulty]
    rfl
  | @found text config hfound =>
    have hgood : ConfigFile.read (.detect path text) path text = .ok ⟨path, text, config⟩ := by
      rw [ConfigFile.read, hfound]
      rfl
    simp only [bind, Except.bind, Except.mapError, hgood]
    rfl

/-- The description of a package is read to see whether it is passed over. -/
theorem run_isPassedOver {text : Text} (hread : tree.read path = .ok (.text text))
    (h : path.fileName? = some ConfigFormat.packageFile) :
    Id.run ((isPassedOver path : LoadM (StateM FileTree) Bool).run tree) =
      (((Config.read? .package text).map Option.isNone).mapError (.faulty path text), tree) := by
  rw [isPassedOver, if_pos h, Disk.run_bind, run_contentOf, readText, hread]
  simp only [bind, Except.bind, Except.mapError]
  rcases Config.read? .package text with error | _ | config <;> rfl

/-- The format of the description of a package is known by its name. -/
theorem detect_packageFile (h : path.fileName? = some ConfigFormat.packageFile) (text : Text) :
    ConfigFormat.detect path text = .package := by
  rw [ConfigFormat.detect, if_pos h]

/-- Only a file of this name is read as the description of a package. -/
theorem fileName?_of_detect {text : Text} (h : ConfigFormat.detect path text = .package) :
    path.fileName? = some ConfigFormat.packageFile := by
  by_contra hname
  rw [ConfigFormat.detect, if_neg hname] at h
  split at h
  · cases h
  split at h
  · cases h
  split at h
  · cases h
  · cases h

/-- A file that is not passed over gives something. -/
theorem exists_gives (h : ¬PassedOver path content) : ∃ result, Gives path content result := by
  cases content with
  | bytes bytes => exact ⟨_, .unreadable bytes⟩
  | text text =>
    rcases hread : Config.read? (.detect path text) text with error | _ | config
    · exact ⟨_, .faulty hread⟩
    · obtain ⟨hformat, homitted⟩ := Config.read?_eq_none_iff.1 hread
      exact absurd ⟨fileName?_of_detect hformat, text, rfl, homitted⟩ h
    · exact ⟨_, .found hread⟩

/-- A candidate that is no file is left out. -/
theorem searched_of_error (hread : tree.read path = .error cause) (rest : List Path) :
    searched tree (path :: rest) = searched tree rest := by
  rw [searched, firstOf, Disk.run_bind, run_isFile, hread]
  rfl

/-- A file that is passed over is left out. -/
theorem searched_of_passedOver (hread : tree.read path = .ok content)
    (h : PassedOver path content) (rest : List Path) :
    searched tree (path :: rest) = searched tree rest := by
  obtain ⟨hname, text, rfl, homitted⟩ := h
  have hnone : Config.read? .package text = .ok none := Config.read?_eq_none_iff.2 ⟨rfl, homitted⟩
  have hpassed := run_isPassedOver hread hname
  rw [hnone] at hpassed
  have hlater : Id.run ((do if ← isPassedOver path then firstOf rest else (do
      let file ← openAt path
      return some file) : LoadM (StateM FileTree) (Option ConfigFile)).run tree) =
        searched tree rest := by
    rw [Disk.run_bind, hpassed]
    rfl
  rw [searched, firstOf, Disk.run_bind, run_isFile, hread]
  exact hlater

/-- Any other file decides the search. -/
theorem searched_of_gives (hread : tree.read path = .ok content) (h : ¬PassedOver path content)
    (hgives : Gives path content result) (rest : List Path) :
    searched tree (path :: rest) = (result.map some, tree) := by
  have hopen : Id.run ((do
      let file ← openAt path
      return some file : LoadM (StateM FileTree) (Option ConfigFile)).run tree) =
        (result.map some, tree) := by
    rw [Disk.run_bind, run_openAt hread hgives]
    cases result <;> rfl
  have hlater : Id.run ((do if ← isPassedOver path then firstOf rest else (do
      let file ← openAt path
      return some file) : LoadM (StateM FileTree) (Option ConfigFile)).run tree) =
        (result.map some, tree) := by
    rw [Disk.run_bind]
    by_cases hname : path.fileName? = some ConfigFormat.packageFile
    · cases hgives with
      | unreadable bytes =>
        rw [isPassedOver, if_pos hname, Disk.run_bind, run_contentOf, readText, hread]
        rfl
      | faulty herror =>
        rw [detect_packageFile hname] at herror
        rw [run_isPassedOver hread hname, herror]
        rfl
      | found hfound =>
        rw [detect_packageFile hname] at hfound
        rw [run_isPassedOver hread hname, hfound]
        exact hopen
    · rw [isPassedOver, if_neg hname]
      exact hopen
  rw [searched, firstOf, Disk.run_bind, run_isFile, hread]
  exact hlater

/-- Candidates that decide nothing are left out. -/
theorem searched_append {before : List Path} (h : ∀ path ∈ before, ¬Decisive tree path)
    (rest : List Path) : searched tree (before ++ rest) = searched tree rest := by
  induction before with
  | nil => rfl
  | cons path more ih =>
    obtain ⟨hpath, hmore⟩ := List.forall_mem_cons.1 h
    rw [List.cons_append]
    cases hread : tree.read path with
    | error cause => rw [searched_of_error hread, ih hmore]
    | ok content =>
      have hpassed : PassedOver path content := by
        by_contra hpassed
        exact hpath ⟨content, hread, hpassed⟩
      rw [searched_of_passedOver hread hpassed, ih hmore]

/-- The first candidate that is decisive decides the search. -/
theorem searched_first {before after : List Path} (h : ∀ path ∈ before, ¬Decisive tree path)
    (hread : tree.read path = .ok content) (hpassed : ¬PassedOver path content)
    (hgives : Gives path content result) :
    searched tree (before ++ path :: after) = (result.map some, tree) := by
  rw [searched_append h, searched_of_gives hread hpassed hgives]

/-- Nothing is found only where no candidate is decisive. -/
theorem searched_eq_none_iff {paths : List Path} :
    searched tree paths = (.ok none, tree) ↔ ∀ path ∈ paths, ¬Decisive tree path := by
  refine ⟨fun hnone => ?_, fun h => ?_⟩
  · induction paths with
    | nil => simp
    | cons path rest ih =>
      have hpath : ¬Decisive tree path := by
        rintro ⟨content, hread, hpassed⟩
        obtain ⟨result, hgives⟩ := exists_gives hpassed
        rw [searched_of_gives hread hpassed hgives] at hnone
        cases result <;> cases hnone
      have hrest : searched tree (path :: rest) = searched tree rest :=
        @searched_append _ [path] (by simpa using hpath) rest
      exact List.forall_mem_cons.2 ⟨hpath, ih (hrest ▸ hnone)⟩
  · have hall := searched_append h []
    rw [List.append_nil] at hall
    rw [hall]
    rfl

end Search

section Candidates

variable {start path parent : Path} {directories : List Path}

/-- The path above a path has a shorter spelling. -/
theorem length_of_parent? (h : path.parent? = some parent) :
    parent.text.length < path.text.length := by
  rcases extends_of_parent? h with ⟨-, hhead, rfl⟩ | ⟨before, name, after, hextends⟩
  · exact List.length_pos_of_ne_nil (List.ne_nil_of_mem (List.mem_of_head? hhead))
  · exact hextends.length

/-- All paths above a path are among its ancestors. -/
theorem ascends_ancestorsUpTo {count : Nat} (h : path.text.length < count) :
    path.Ascends (Path.ancestorsUpTo count path) := by
  induction count generalizing path with
  | zero => exact absurd h (Nat.not_lt_zero _)
  | succ count ih =>
    rw [Path.ancestorsUpTo]
    cases hparent : path.parent? with
    | none => exact .top hparent
    | some parent =>
      have hlength := length_of_parent? hparent
      exact .step hparent (ih (by omega))

/-- Nothing counts among single dots. -/
theorem filter_dots {list : List Text} (h : ∀ dot ∈ list, dot = ".".toList) :
    (list.filter fun name : Text => name ≠ ".") = [] := by
  refine List.filter_eq_nil_iff.2 fun dot hdot => ?_
  rw [h dot hdot]
  decide

/-- Paths without double dots that start at the root lead up to it one directory at a
time. -/
theorem place_of_ascends (h : path.Ascends directories) (habsolute : path.isAbsolute = true)
    (hup : "..".toList ∉ FileTree.names path) (current : Place) :
    directories.map (Path.place current) = (path.place current).inits.reverse := by
  have hplace {path : Path} (habsolute : path.isAbsolute = true)
      (hup : "..".toList ∉ FileTree.names path) :
      path.place current = (FileTree.names path).filter fun name : Text => name ≠ "." := by
    rw [Path.place, if_pos habsolute, Place.follow_of_up_notMem hup, List.nil_append]
  induction h with
  | top hparent =>
    rw [List.map_singleton, hplace habsolute hup, filter_dots (names_of_parent?_none hparent)]
    rfl
  | @step path parent above hparent habove ih =>
    rcases extends_of_parent? hparent with ⟨-, hhead, -⟩ | ⟨before, name, after, hextends⟩
    · simp [Path.isAbsolute, hhead] at habsolute
    · have hparentUp : "..".toList ∉ FileTree.names parent := fun hmem => hup <| by
        rw [hextends.names]
        exact List.mem_append_left _ (List.mem_append_left _ hmem)
      have hparentAbsolute := hextends.isAbsolute.trans habsolute
      -- one name is left between what leads to the parent and single dots
      have hlast : path.place current = parent.place current ++ [name] := by
        rw [hplace habsolute hup, hplace hparentAbsolute hparentUp, hextends.names,
          List.filter_append, List.filter_append, filter_dots hextends.before,
          List.filter_cons_of_pos (by simpa using hextends.ne_here), filter_dots hextends.after,
          List.append_nil]
      rw [List.map_cons, ih hparentAbsolute hparentUp, hlast, List.inits_append]
      simp

/-- The names of configuration files are names. -/
theorem isName_fileNames : ∀ name ∈ fileNames, IsName name := by decide

/-- Seen from the root, the candidates for a directory lie in it, then in the one above it
and so on, under every name in turn. -/
theorem place_candidates (habsolute : start.isAbsolute = true)
    (hup : "..".toList ∉ FileTree.names start) (current : Place) :
    (candidates start).map (Path.place current) =
      (start.place current).inits.reverse.flatMap fun place =>
        fileNames.map fun name => place ++ [name] := by
  have hascends : start.Ascends start.ancestors := ascends_ancestorsUpTo (Nat.lt_succ_self _)
  rw [← place_of_ascends hascends habsolute hup current, candidates, List.map_flatMap,
    List.flatMap_map]
  refine List.flatMap_congr fun directory _ => ?_
  rw [List.map_map]
  exact List.map_congr_left fun name hname =>
    place_join_name current directory (isName_fileNames name hname)

end Candidates

/-- The search for a configuration goes up from the start, and from one directory to the
next under the same names. The first file on its way that is not a package without
configuration decides what is found, whatever stands behind it, and nothing is found only
where there is no such file. -/
theorem discover_decides (start : Path) :
    (∃ directories, start.Ascends directories ∧ candidates start =
      directories.flatMap fun directory => fileNames.map fun name => directory.join ⟨name⟩) ∧
    (start.isAbsolute = true → "..".toList ∉ FileTree.names start → ∀ current,
      (candidates start).map (Path.place current) =
        (start.place current).inits.reverse.flatMap fun place =>
          fileNames.map fun name => place ++ [name]) ∧
    (∀ tree : FileTree,
      Id.run ((discover start : LoadM (StateM FileTree) (Option ConfigFile)).run tree) =
          (.ok none, tree) ↔
        ∀ path ∈ candidates start, ¬Decisive tree path) ∧
    ∀ before path after content, candidates start = before ++ path :: after →
      ¬PassedOver path content → ∃ result, Gives path content result ∧
        ∀ tree : FileTree, (∀ earlier ∈ before, ¬Decisive tree earlier) →
          tree.read path = .ok content →
            Id.run ((discover start : LoadM (StateM FileTree) (Option ConfigFile)).run tree) =
              (result.map some, tree) := by
  refine ⟨⟨start.ancestors, ascends_ancestorsUpTo (Nat.lt_succ_self _), rfl⟩, place_candidates,
    fun tree => searched_eq_none_iff, fun before path after content hcandidates hpassed => ?_⟩
  obtain ⟨result, hgives⟩ := exists_gives hpassed
  refine ⟨result, hgives, fun tree hearlier hread => ?_⟩
  rw [discover, hcandidates]
  exact searched_first hearlier hread hpassed hgives

/-- A package without configuration is passed over, and a broken file in the directory above
it hides the one further up. -/
theorem discover_decides_broken :
    let tree : FileTree := ⟨[(["a"], .directory), (["a", ".schemagenrc"], .file (.bytes [255])),
      (["a", "b"], .directory), (["a", "b", "package.json"], .file (.text "\x7b\x7d")),
      (["schemagen.toml"], .file (.text "[[tasks]]\ntarget = \"zod\"\n"))], []⟩
    Id.run ((discover ⟨"/a/b"⟩ : LoadM (StateM FileTree) (Option ConfigFile)).run tree) =
      (.error (.unreadable ⟨"/a/.schemagenrc"⟩ .notText), tree) := by
  intro tree
  have hpackage : PassedOver ⟨"/a/b/package.json"⟩ (.text "\x7b\x7d") :=
    ⟨by decide, _, rfl, Config.ofPackage_eq_none_iff.1 (by rfl)⟩
  -- of the candidates before the broken file only the package is there
  have honly : ∀ earlier ∈ (candidates ⟨"/a/b"⟩).take 8, (tree.read earlier).toBool = true →
      earlier = ⟨"/a/b/package.json"⟩ := by decide
  have hearlier : ∀ earlier ∈ (candidates ⟨"/a/b"⟩).take 8, ¬Decisive tree earlier := by
    rintro earlier hmem ⟨content, hread, hpassed⟩
    obtain rfl := honly earlier hmem (by rw [hread]; rfl)
    have hcontent : tree.read ⟨"/a/b/package.json"⟩ = .ok (.text "\x7b\x7d") := by rfl
    obtain rfl := Except.ok.inj (hread.symm.trans hcontent)
    exact hpassed hpackage
  obtain ⟨result, hgives, hsearch⟩ := (discover_decides ⟨"/a/b"⟩).2.2.2
    ((candidates ⟨"/a/b"⟩).take 8) ⟨"/a/.schemagenrc"⟩ ((candidates ⟨"/a/b"⟩).drop 9)
    (.bytes [255]) (by decide) (by rintro ⟨-, text, htext, -⟩; cases htext)
  have hresult := hsearch tree hearlier (by rfl)
  cases hgives
  exact hresult

end ConfigFile

end InterfaceSchema
