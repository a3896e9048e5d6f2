import InterfaceSchema.Config.Read
import InterfaceSchema.Proofs.Config.Forms
import InterfaceSchema.Proofs.Json.Reading

/-!
# Configurations in the descriptions of packages

A configuration may be a JSON document of its own or stand in the description of a package.
The same tree gives the same configuration in both places, or is refused for the same
reason. The description as a whole has to be usable: it must not be nested too deeply, and
none of its numbers may be too great, even where the configuration does not look.
-/

namespace InterfaceSchema

open Json RecordForm

namespace ConfigForm

/-- The field that a key of a configuration or a task names. -/
def fieldName (key : Text) : Text := if key = "fixImports" then "fix_imports" else key

variable {rule rule' : SurplusRule} {tree : Tree}

/-- The keys that a configuration or a task may have. -/
def documentedKeys : List Text :=
  ["input", "output", "tasks", "target", "clean", "fix_imports", "fixImports"]

/-- The tree has no other keys. -/
def Documented (tree : Tree) : Prop :=
  tree.Everywhere fun keys => ∀ key ∈ keys, key ∈ documentedKeys

/-- The fields of a task may be stored in any order. -/
theorem task_commutes : task.Commutes := by
  simp only [Commutes, task, List.pairwise_cons, List.forall_mem_cons, List.not_mem_nil,
    List.Pairwise.nil, IsEmpty.forall_iff, implies_true, and_true]
  and_intros <;> intro value value' record <;>
    simp only [toOption_bind, toOption_ok, Option.bind_assoc, Option.bind_some] <;>
    exact Option.bind_comm _ _

/-- The fields of a configuration may be stored in any order. -/
theorem config_commutes (rule : SurplusRule) : (config rule).Commutes := by
  refine .cons ?_ (.cons ?_ (.cons (by simp) .nil))
  all_goals
    simp only [List.forall_mem_cons, List.not_mem_nil, IsEmpty.forall_iff, implies_true, and_true]
  · constructor <;> intro value value' record <;>
      simp only [toOption_bind, toOption_ok, Option.bind_assoc, Option.bind_some]
    · exact Option.bind_comm _ _
    · exact (Option.bind_comm _ _).trans (congrArg _ (funext fun _ => Option.bind_comm _ _))
  · intro value value' record
    simp only [toOption_bind, toOption_ok, Option.bind_assoc, Option.bind_some]
    exact (Option.bind_comm _ _).trans (congrArg _ (funext fun _ => Option.bind_comm _ _))

/-- A key of a task gets the name of the field that it gives. -/
theorem task_named : task.Named fieldName := by
  unfold Named
  decide

/-- A key of a configuration gets the name of the field that it gives. -/
theorem config_named (rule : SurplusRule) : (config rule).Named fieldName := by
  unfold Named
  cases rule <;> decide

/-- Tasks are read alike from values that tell the same tree. -/
theorem task_alike : RecordForm.Alike fieldName task task where
  fields := by
    refine .cons ⟨rfl, rfl, fun _ _ _ => (readsAlike_asText _ _).bind _⟩
      (.cons ⟨rfl, rfl, fun _ _ _ => readsAlike_optionalPath.bind _⟩
      (.cons ⟨rfl, rfl, fun _ _ _ => readsAlike_optionalPath.bind _⟩
      (.cons ⟨rfl, rfl, fun _ _ _ => readsAlike_optionalFlag.bind _⟩
      (.cons ⟨rfl, rfl, fun _ _ _ => readsAlike_optionalFlag.bind _⟩ .nil))))
  start := rfl
  commutes := task_commutes
  commutes' := task_commutes
  named := task_named
  named' := task_named

/-- A task needs a target. -/
theorem toOption_readTask (rule : SurplusRule) (value : Value) :
    (readTask rule value).toOption = (task.read rule value).toOption.bind fun draft =>
      draft.target.map fun target =>
        ⟨target, draft.input, draft.output, draft.clean, draft.fixImports⟩ := by
  rw [readTask, toOption_bind]
  congr 1
  funext draft
  cases draft.target <;> rfl

/-- Entries of the list of tasks are read alike. -/
theorem readsAlike_readTask (hrule : rule ≠ .ignored) (hrule' : rule' ≠ .ignored)
    (hdistinct : tree.DistinctBy fieldName) :
    ReadsAlike tree (readTask rule) (readTask rule') := by
  intro lenient lenient' value value' htells htells'
  rw [toOption_readTask, toOption_readTask,
    task_alike.readsAlike hrule hrule' hdistinct _ _ _ _ htells htells']

/-- Configurations are read alike from values that tell the same tree. -/
theorem config_alike (hrule : rule ≠ .ignored) (hrule' : rule' ≠ .ignored) :
    RecordForm.Alike fieldName (config rule) (config rule') where
  fields := by
    refine .cons ⟨rfl, rfl, fun _ _ _ => readsAlike_optionalPath.bind _⟩
      (.cons ⟨rfl, rfl, fun _ _ _ => readsAlike_optionalPath.bind _⟩
      (.cons ⟨rfl, rfl, fun tree hdistinct record => ?_⟩ .nil))
    have hitems : ∀ items, tree = .list items → ∀ item ∈ items,
        ReadsAlike item (readTask rule) (readTask rule') := by
      rintro items rfl item hitem
      rw [Tree.distinctBy_list] at hdistinct
      exact readsAlike_readTask hrule hrule' (hdistinct item hitem)
    simpa only [bind_assoc] using
      (readsAlike_asList hitems).bind fun tasks => .ok { record with tasks := tasks }
  start := rfl
  commutes := config_commutes rule
  commutes' := config_commutes rule'
  named := config_named rule
  named' := config_named rule'

/-- A configuration is read alike from all values that tell it. -/
theorem readsAlike_read (rule rule' : SurplusRule) (hrule : rule ≠ .ignored)
    (hrule' : rule' ≠ .ignored) (hdistinct : tree.DistinctBy fieldName) :
    ReadsAlike tree (read rule) (read rule') :=
  (config_alike hrule hrule').readsAlike hrule hrule' hdistinct

end ConfigForm

/-- The text describes a package whose configuration is the tree. -/
structure Config.Packaged (lenient : Bool) (members : List TreeMember) (tree : Tree)
    (package : Text) : Prop where
  spelled : IsTextOf lenient (.object members) package
  distinct : (members.map TreeMember.key).Nodup
  member : ⟨ConfigFormat.packageKey, tree⟩ ∈ members

/-- The text holds no configuration at all. -/
def ConfigError.IsUnreadable : ConfigError → Prop
  | .malformed | .fault _ _ => True
  | .emptyTasks | .invalidTarget _ => False

/-- Two readings find the same configuration, or both lack tasks, or both name the same
unknown target, or both find no configuration at all. -/
inductive ConfigFile.Agree : Except ConfigError ConfigFile → Except ConfigError ConfigFile → Prop
  | found {file file' : ConfigFile} : file.config = file'.config → Agree (.ok file) (.ok file')
  | emptyTasks : Agree (.error .emptyTasks) (.error .emptyTasks)
  | invalidTarget {unknown : UnknownTarget} :
    Agree (.error (.invalidTarget unknown)) (.error (.invalidTarget unknown))
  | unreadable {error error' : ConfigError} : error.IsUnreadable → error'.IsUnreadable →
    Agree (.error error) (.error error')

namespace Config

variable {tree : Tree} {members : List TreeMember} {text package key : Text} {root : Value}
  {name : Text → Text}

/-- The value of a key is found in an object whose keys have been sorted. -/
theorem member?_sorted {lenient : Bool} (htells : Tells lenient (.object members) root)
    (hkeys : (members.map TreeMember.key).Nodup) (hmember : ⟨key, tree⟩ ∈ members)
    (hdistinct : tree.DistinctBy name) :
    ∃ part, member? key root.sorted = some part ∧ Tells lenient tree part := by
  obtain ⟨entries, span, matched, rfl, hperm, htells⟩ := htells
  have hnodup := nodup_key_of_tellsMembers htells hperm hkeys
  obtain ⟨entry, hentry, hkey, hvalue⟩ :=
    exists_of_forall₂ (tellsMembers_iff.mp htells).flip hmember
  have hsorted : (Value.sortedEntries [] entries).Perm (entries.map sortedEntry) :=
    sortedEntries_perm [] hnodup
  have hmem : sortedEntry entry ∈ Value.sortedEntries [] entries :=
    hsorted.mem_iff.mpr (List.mem_map_of_mem (hperm.mem_iff.mp hentry))
  have hsame : Entry.sameKey (sortedEntry entry).key (.ok key) = true := by
    rw [show (sortedEntry entry).key = .ok key from hkey]
    simp [Entry.sameKey]
  obtain ⟨found, hfound⟩ : ∃ found, (Value.sortedEntries [] entries).find?
      (fun entry => Entry.sameKey entry.key (.ok key)) = some found :=
    Option.isSome_iff_exists.mp (List.find?_isSome.mpr ⟨_, hmem, hsame⟩)
  -- no other entry has the key
  have heq : found = sortedEntry entry := by
    have hkeys' : ((Value.sortedEntries [] entries).map Entry.key).Nodup := by
      rw [(hsorted.map Entry.key).nodup_iff, List.map_map]
      exact hnodup
    refine List.inj_on_of_nodup_map hkeys' (List.mem_of_find?_eq_some hfound) hmem ?_
    by_contra hne
    have hfalse := sameKey_eq_false hne
    rw [show (sortedEntry entry).key = .ok key from hkey, List.find?_some hfound] at hfalse
    cases hfalse
  exact ⟨found.value, by simp [member?, Value.sorted, hfound], heq ▸ hvalue.sorted hdistinct⟩

/-- A configuration is read from the value that its JSON text tells. -/
theorem ofJson_of_isTextOf {lenient : Bool} (h : IsTextOf lenient tree text) :
    ∃ value, Tells lenient tree value ∧
      ofJson text = (ConfigForm.read .trailing value).mapError (.fault .json) := by
  obtain ⟨htells, htrailing⟩ := Document.read_of_isTextOf h
  refine ⟨_, htells, ?_⟩
  rw [ofJson, complete, htrailing]
  cases ConfigForm.read .trailing (Document.read text).root <;> rfl

/-- A configuration is read from the value of its key in the description of a package. -/
theorem ofPackage_of_packaged (h : Packaged false members tree package)
    (hdepth : (Tree.object members).depth ≤ packageDepth) (hdistinct : tree.DistinctBy name) :
    ∃ part, Tells false tree part ∧ ofPackage package =
      ((ConfigForm.read .counted part).mapError (.fault .part)).map some := by
  obtain ⟨htells, htrailing⟩ := Document.read_of_isTextOf h.spelled
  obtain ⟨part, hpart, htold⟩ := member?_sorted htells h.distinct h.member hdistinct
  refine ⟨part, htold, ?_⟩
  simp only [ofPackage, complete, htrailing, htells.useAll hdepth, hpart]
  rfl

end Config

namespace ConfigFile

variable {tree : Tree} {members : List TreeMember} {text package : Text}

section OneTask

/-- A character that need not be escaped in a string. -/
def isPlain (c : Char) : Bool := c != '"' && c != '\\' && 32 ≤ c.toNat

/-- A text of characters that need not be escaped spells itself. -/
theorem spellsText_self (value : Text) {rest : Text} (h : value.all isPlain = true) :
    SpellsText (value ++ '"' :: rest) value rest := by
  induction value with
  | nil => exact .nil
  | cons c value ih =>
    rw [List.all_cons, Bool.and_eq_true] at h
    simp only [isPlain, Bool.and_eq_true, bne_iff_ne, decide_eq_true_eq] at h
    exact .plain h.1.1.1 h.1.1.2 h.1.2 (ih h.2)

/-- No blank need be skipped. -/
theorem skips_self (text : Text) : Skips text text := ⟨[], rfl, nofun⟩

/-- One task without any settings. -/
def oneTask : Tree :=
  .object [⟨"tasks", .list [.object [⟨"target", .text "zod"⟩, ⟨"fixImports", .null⟩]]⟩]

/-- A text of the task. -/
def oneTaskText : Text := "\x7b\"tasks\":[\x7b\"target\":\"zod\",\"fixImports\":null\x7d]\x7d"

/-- The text spells the task whatever follows it. -/
theorem spells_oneTask (lenient : Bool) (rest : Text) :
    Spells lenient (oneTaskText ++ rest) oneTask rest := by
  have htask : ∀ rest, Spells lenient
      ("\x7b\"target\":\"zod\",\"fixImports\":null\x7d".toList ++ rest)
      (.object [⟨"target", .text "zod"⟩, ⟨"fixImports", .null⟩]) rest := fun rest =>
    .object (skips_self _)
      (.more (spellsText_self "target" rfl) (skips_self _) (skips_self _)
        (.text (spellsText_self "zod" rfl)) (skips_self _) (skips_self _)
        (.last (spellsText_self "fixImports" rfl) (skips_self _) (skips_self _) .null
          (skips_self _))) (.refl _)
  exact .object (skips_self _)
    (.last (spellsText_self "tasks" rfl) (skips_self _) (skips_self _)
      (.list (skips_self _) (.last (htask _) (skips_self _))) (skips_self _)) (.refl _)

/-- So the text is one of the task. -/
theorem isTextOf_oneTask (lenient : Bool) : IsTextOf lenient oneTask oneTaskText :=
  ⟨_, [], skips_self _, by simpa using spells_oneTask lenient [], skips_self _⟩

/-- The task repeats no key. -/
theorem distinctBy_oneTask : oneTask.DistinctBy ConfigForm.fieldName := by
  simp only [oneTask, Tree.distinctBy_object, Tree.distinctBy_list, List.forall_mem_cons,
    List.not_mem_nil, IsEmpty.forall_iff, implies_true, and_true]
  exact ⟨by decide, by decide, trivial, trivial⟩

/-- The description of a package with the task and another member. -/
def packageText (other : Text) : Text :=
  "\x7b\"schemagen\":" ++ (oneTaskText ++ (",\"other\":" ++ (other ++ "\x7d".toList)))

/-- The members of the package. -/
def packageMembers (other : Tree) : List TreeMember :=
  [⟨"other", other⟩, ⟨ConfigFormat.packageKey, oneTask⟩]

/-- The description is what it should be if the other member is spelled. -/
theorem packaged_packageText {lenient : Bool} {other : Text} {tree : Tree}
    (h : ∀ rest, Spells lenient (other ++ rest) tree rest) :
    Config.Packaged lenient (packageMembers tree) oneTask (packageText other) where
  spelled := ⟨_, [], skips_self _, .object (skips_self _)
    (.more (spellsText_self "schemagen" rfl) (skips_self _) (skips_self _)
      (spells_oneTask lenient _) (skips_self _) (skips_self _)
      (.last (spellsText_self "other" rfl) (skips_self _) (skips_self _) (h _)
        (skips_self _))) (.swap _ _ _), skips_self _⟩
  distinct := by simp [packageMembers]; decide
  member := by simp [packageMembers]

/-- A list in a list in a list and so on. -/
def nested : Nat → Tree
  | 0 => .list []
  | count + 1 => .list [nested count]

/-- The text of such a list. -/
def nestedText (count : Nat) : Text :=
  List.replicate (count + 1) '[' ++ List.replicate (count + 1) ']'

/-- The text spells the list whatever follows it. -/
theorem spells_nested (lenient : Bool) (count : Nat) (rest : Text) :
    Spells lenient (nestedText count ++ rest) (nested count) rest := by
  induction count generalizing rest with
  | zero => exact .emptyList (skips_self _)
  | succ count ih =>
    have htext : nestedText (count + 1) ++ rest = '[' :: (nestedText count ++ (']' :: rest)) := by
      have hclose : List.replicate (count + 2) ']' = List.replicate (count + 1) ']' ++ [']'] :=
        List.replicate_succ'
      rw [nestedText, hclose, List.replicate_succ]
      simp only [nestedText, List.cons_append, List.append_assoc, List.nil_append]
    rw [htext]
    exact .list (skips_self _) (.last (ih _) (skips_self _))

/-- A number that a package may well have. -/
def fitting : Numeral := ⟨false, "12", some "5", none⟩

/-- The number is spelled as it should be. -/
theorem fitting_sound : fitting.Sound where
  whole := ⟨List.cons_ne_nil _ _, List.all_eq_true.1 rfl⟩
  zero := by decide
  fraction := by
    rintro _ ⟨⟩
    exact ⟨List.cons_ne_nil _ _, List.all_eq_true.1 rfl⟩
  exponent := nofun

/-- The number is in range. -/
theorem fitting_inRange : fitting.InRange := .inr ⟨"12.5", ⟨0, 0⟩, rfl⟩

/-- A number beyond all doubles. -/
def excessive : Numeral := ⟨false, "1", none, some ⟨'e', none, "999"⟩⟩

/-- The number is spelled as it should be. -/
theorem excessive_sound : excessive.Sound where
  whole := ⟨List.cons_ne_nil _ _, List.all_eq_true.1 rfl⟩
  zero := by decide
  fraction := nofun
  exponent := by
    rintro _ ⟨⟩
    exact ⟨.inl rfl, .inl rfl, List.cons_ne_nil _ _, List.all_eq_true.1 rfl⟩

end OneTask

/-- What is read is validated in the same way wherever it was found. -/
theorem agree_validate (config : Config) (path place : Path) (text package : Text) :
    Agree ((Config.validate config).map fun config => ⟨path, text, config⟩)
      ((Config.validate config).map fun config => ⟨place, package, config⟩) := by
  rw [Config.validate]
  split
  · exact .emptyTasks
  · cases Config.unknownTarget? config.tasks with
    | none => exact .found rfl
    | some unknown => exact .invalidTarget

/-- A configuration in the description of a package is read as the JSON text of the same
tree is, provided that all of the description can be used. -/
theorem agree_read (hdistinct : tree.DistinctBy ConfigForm.fieldName)
    (htext : IsTextOf true tree text) (hpackage : Config.Packaged false members tree package)
    (hdepth : (Tree.object members).depth ≤ Config.packageDepth) (path place : Path) :
    Agree (read .json path text) (read .package place package) := by
  obtain ⟨value, hvalue, hjson⟩ := Config.ofJson_of_isTextOf htext
  obtain ⟨part, hpart, hmanifest⟩ :=
    Config.ofPackage_of_packaged hpackage hdepth hdistinct
  have halike := ConfigForm.readsAlike_read .trailing .counted nofun nofun
    hdistinct _ _ _ _ hvalue hpart
  simp only [read, Config.read?, hjson, hmanifest]
  cases hread : ConfigForm.read .trailing value with
  | error fault =>
    cases hread' : ConfigForm.read .counted part with
    | error fault' => exact .unreadable trivial trivial
    | ok config => simp [hread, hread', Except.toOption] at halike
  | ok config =>
    cases hread' : ConfigForm.read .counted part with
    | error fault => simp [hread, hread', Except.toOption] at halike
    | ok config' =>
      obtain rfl : config = config' := by simpa [hread, hread', Except.toOption] using halike
      have hagree := agree_validate config path place text package
      cases hvalidate : Config.validate config <;>
        simpa [hvalidate, Except.map, Except.mapError, bind, Except.bind] using hagree

/-- One task, and a package with a number besides. -/
theorem agree_read_oneTask :
    Agree (read .json ⟨".schemagenrc.json"⟩ oneTaskText)
      (read .package ⟨"package.json"⟩ (packageText "12.5")) :=
  agree_read distinctBy_oneTask (isTextOf_oneTask true)
    (packaged_packageText fun _ => .number fitting_sound (.inr fitting_inRange)) (by decide) _ _

/-- A number that is too great, or a list that is nested too deeply, spoils the
description of a package even where no configuration stands. -/
theorem not_agree_read :
    (ConfigForm.Documented oneTask ∧ oneTask.DistinctBy ConfigForm.fieldName ∧ oneTask.depth < 128 ∧
      IsTextOf true oneTask oneTaskText) ∧
    (Config.Packaged true (packageMembers (.number excessive.value)) oneTask (packageText "1e999") ∧
      ¬Agree (read .json ⟨".schemagenrc.json"⟩ oneTaskText)
        (read .package ⟨"package.json"⟩ (packageText "1e999"))) ∧
    (Config.Packaged false (packageMembers (nested 126)) oneTask (packageText (nestedText 126)) ∧
      ¬Agree (read .json ⟨".schemagenrc.json"⟩ oneTaskText)
        (read .package ⟨"package.json"⟩ (packageText (nestedText 126)))) := by
  have hfound : (read .json ⟨".schemagenrc.json"⟩ oneTaskText).toOption.isSome = true := by
    decide +kernel
  have hlarge : (read .package ⟨"package.json"⟩ (packageText "1e999")).toOption.isSome = false := by
    decide +kernel
  have hdeep : (read .package ⟨"package.json"⟩ (packageText (nestedText 126))).toOption.isSome =
      false := by
    decide +kernel
  have hdiffer {a b : Except ConfigError ConfigFile} (ha : a.toOption.isSome = true)
      (hb : b.toOption.isSome = false) : ¬Agree a b := by
    rintro (_ | _ | _ | _) <;> simp_all [Except.toOption]
  refine ⟨⟨?_, distinctBy_oneTask, by decide, isTextOf_oneTask true⟩,
    ⟨packaged_packageText fun rest => .number excessive_sound (.inl rfl), hdiffer hfound hlarge⟩,
    packaged_packageText (spells_nested false 126), hdiffer hfound hdeep⟩
  simp only [ConfigForm.Documented, oneTask, Tree.everywhere_object, Tree.everywhere_list,
    List.forall_mem_cons, List.not_mem_nil, IsEmpty.forall_iff, implies_true, and_true]
  exact ⟨by decide, by decide, trivial, trivial⟩

end ConfigFile

end InterfaceSchema
