import InterfaceSchema.Proofs.Config.Discovery
import Mathlib

/-!
# Settings of tasks

Every configuration that is read lists tasks whose targets are known, so resolving them
cannot fail. A setting is the first one that is given, and a relative path is seen from
the working directory. A target on the command line means what a configuration means
that names this target and nothing else.
-/

namespace InterfaceSchema

/-- A configuration file as it comes out of reading a text or of loading. -/
inductive ConfigFile.Loaded : ConfigFile → Prop
  | read {format : ConfigFormat} {path : Path} {content : Text} {file : ConfigFile} :
    ConfigFile.read format path content = .ok file → Loaded file
  | load {given : Option Path} {current : Path} {tree later : FileTree} {file : ConfigFile} :
    Disk.Ran (ConfigFile.load given current) tree file later → Loaded file

/-- The name of a target in any letter case. -/
def Target.Spelled (target : Target) (name : Text) : Prop :=
  List.Forall₂ (fun c letter => c = letter ∨ c = letter.toUpper) name target.name

/-- The first value that is given among settings, or the default. -/
inductive FirstGiven {α : Type} (default : α) : List (Option α) → α → Prop
  | default : FirstGiven default [] default
  | given {value : α} {later : List (Option α)} : FirstGiven default (some value :: later) value
  | later {value : α} {later : List (Option α)} : FirstGiven default later value →
    FirstGiven default (none :: later) value

/-- What a path means that is seen from a directory: an absolute one is kept, and a
relative one stands behind the directory. -/
inductive Path.Seen (current : Path) : Path → Path → Prop
  | absolute {path : Path} : path.isAbsolute = true → Seen current path path
  | relative {path result : Path} {between : Text} : path.isAbsolute = false →
    FileTree.names result = FileTree.names current ++ FileTree.names path →
    result.isAbsolute = current.isAbsolute →
    result.text = current.text ++ between ++ path.text → between = "" ∨ between = "/" →
    Seen current path result

/-- A task has the target of an entry, and its settings come from the command line before
the entry and from the entry before the whole configuration. -/
structure Task.Resolves (config : Config) (overrides : Overrides) (current : Path)
    (entry : TaskEntry) (task : Task) : Prop where
  target : task.target.Spelled entry.target
  input : ∃ path, current.Seen path task.input ∧
    FirstGiven Task.defaultInput [overrides.input, entry.input, config.input] path
  output : ∃ path, current.Seen path task.output ∧
    FirstGiven Task.defaultOutput [overrides.output, entry.output, config.output] path
  clean : FirstGiven true [overrides.clean, entry.clean] task.clean
  fixImports : FirstGiven true [overrides.fixImports, entry.fixImports] task.fixImports

section Targets

variable {c letter : Char} {name : Text} {target : Target}

/-- A lower case letter is one of two characters in lower case. -/
theorem toLower_eq_iff (h : letter.isLower) :
    c.toLower = letter ↔ c = letter ∨ c = letter.toUpper := by
  refine ⟨fun hlower => ?_, ?_⟩
  · by_cases hupper : c.isUpper
    · have hkept := Char.toUpper_eq_of_not_isLower (Char.not_isLower_of_isUpper hupper)
      rw [← hlower, Char.toUpper_toLower_eq_toUpper, hkept]
      exact .inr rfl
    · rw [← hlower, Char.toLower_eq_of_not_isUpper hupper]
      exact .inl rfl
  · have hkept := Char.toLower_eq_of_not_isUpper (Char.not_isUpper_of_isLower h)
    rintro (rfl | rfl)
    · exact hkept
    · rw [Char.toLower_toUpper_eq_toLower, hkept]

/-- Names of targets are in lower case. -/
theorem Target.isLower_name (target : Target) : ∀ letter ∈ target.name, letter.isLower :=
  List.all_eq_true.1 (by cases target <;> rfl)

/-- A name in any letter case is the name in lower case. -/
theorem Target.spelled_iff : target.Spelled name ↔ name.map Char.toLower = target.name := by
  have hlower := target.isLower_name
  rw [Target.Spelled]
  generalize target.name = letters at hlower ⊢
  induction letters generalizing name with
  | nil => simp
  | cons letter letters ih =>
    obtain ⟨hletter, hletters⟩ := List.forall_mem_cons.1 hlower
    cases name with
    | nil => simp
    | cons c rest =>
      rw [List.forall₂_cons, List.map_cons, List.cons.injEq, toLower_eq_iff hletter]
      exact and_congr_right fun _ => ih hletters

/-- Targets of different names are different. -/
theorem Target.parse_eq_ok_iff : Target.parse name = .ok target ↔ target.Spelled name := by
  rw [Target.spelled_iff, Target.parse]
  refine ⟨fun h => ?_, fun h => by rw [h, Target.ofName?_name]⟩
  cases hfound : Target.ofName? (name.map Char.toLower) with
  | none =>
    rw [hfound] at h
    cases h
  | some found =>
    rw [hfound] at h
    obtain rfl := Except.ok.inj h
    rw [Target.ofName?] at hfound
    have hname := List.find?_some hfound
    exact (beq_iff_eq.1 hname).symm

end Targets

section Settings

variable {current path : Path} {name : Text} {target : Target} {overrides : Overrides}

/-- A setting is given, or else the first of those behind it counts. -/
theorem FirstGiven.or {α : Type} {default : α} {later : List (Option α)} {rest : Option α}
    (first : Option α) (h : FirstGiven default later (rest.getD default)) :
    FirstGiven default (first :: later) ((first <|> rest).getD default) := by
  cases first with
  | none => exact .later h
  | some value => exact .given

/-- A single setting. -/
theorem FirstGiven.single {α : Type} (default : α) (setting : Option α) :
    FirstGiven default [setting] (setting.getD default) := by
  cases setting with
  | none => exact .later .default
  | some value => exact .given

/-- Joining a path to a directory gives what it means there. -/
theorem seen_join (current path : Path) : current.Seen path (current.join path) := by
  cases habsolute : path.isAbsolute with
  | true =>
    rw [Path.join, if_pos habsolute]
    exact .absolute habsolute
  | false =>
    have hjoin : ∃ between : Text, (current.join path).text = current.text ++ between ++ path.text ∧
        (between = "" ∨ between = "/") := by
      rw [Path.join, if_neg (by simp [habsolute])]
      split
      · exact ⟨[], by simp, .inl rfl⟩
      · exact ⟨['/'], by simp, .inr rfl⟩
    obtain ⟨between, htext, hbetween⟩ := hjoin
    exact .relative habsolute (FileTree.names_join current habsolute)
      (FileTree.isAbsolute_join current habsolute) htext hbetween

/-- An entry with a known target has a task. -/
theorem Config.exists_task {config : Config} {entry : TaskEntry}
    (h : Target.parse entry.target = .ok target) :
    ∃ task, config.task overrides current entry = .ok task ∧
      task.Resolves config overrides current entry := by
  refine ⟨_, by rw [Config.task, h]; rfl, ?_⟩
  exact {
    target := Target.parse_eq_ok_iff.1 h
    input := ⟨_, seen_join current _, (FirstGiven.single ..).or _ |>.or _⟩
    output := ⟨_, seen_join current _, (FirstGiven.single ..).or _ |>.or _⟩
    clean := (FirstGiven.single ..).or _
    fixImports := (FirstGiven.single ..).or _ }

end Settings

namespace ConfigFile

section Loading

variable {file : ConfigFile} {tree later : FileTree} {path : Path} {paths : List Path}

/-- A file that is opened has been read. -/
theorem read_of_openAt (h : Disk.Ran (openAt path) tree file later) :
    ∃ format path content, ConfigFile.read format path content = .ok file := by
  obtain ⟨content, middle, -, hread⟩ := Disk.ran_bind.1 h
  cases hfile : ConfigFile.read (.detect path content) path content with
  | error error =>
    rw [hfile] at hread
    exact absurd hread Disk.not_ran_throw
  | ok found =>
    rw [hfile] at hread
    obtain ⟨rfl, -⟩ := Disk.ran_pure.1 hread
    exact ⟨_, _, _, hfile⟩

/-- A file that is found among others has been read. -/
theorem read_of_firstOf (h : Disk.Ran (firstOf paths) tree (some file) later) :
    ∃ format path content, ConfigFile.read format path content = .ok file := by
  induction paths generalizing tree with
  | nil => exact nomatch (Disk.ran_pure.1 h).1
  | cons path rest ih =>
    obtain ⟨isFile, checked, -, hfile⟩ := Disk.ran_bind.1 h
    cases isFile with
    | false => exact ih hfile
    | true =>
      obtain ⟨isPassedOver, seen, -, hopen⟩ := Disk.ran_bind.1 hfile
      cases isPassedOver with
      | true => exact ih hopen
      | false =>
        obtain ⟨found, opened, hfound, hsome⟩ := Disk.ran_bind.1 hopen
        obtain ⟨hsame, -⟩ := Disk.ran_pure.1 hsome
        obtain rfl := Option.some.inj hsame
        exact read_of_openAt hfound

/-- A file that is loaded has been read. -/
theorem Loaded.exists_read (h : Loaded file) :
    ∃ format path content, ConfigFile.read format path content = .ok file := by
  cases h with
  | read hread => exact ⟨_, _, _, hread⟩
  | @load given current _ _ _ hload =>
    cases given with
    | some path => exact read_of_openAt hload
    | none =>
      rw [ConfigFile.load] at hload
      obtain ⟨found, middle, hfound, hthere⟩ := Disk.ran_bind.1 hload
      cases found with
      | none => exact absurd hthere Disk.not_ran_throw
      | some found =>
        obtain ⟨rfl, -⟩ := Disk.ran_pure.1 hthere
        exact read_of_firstOf hfound

end Loading

section Tasks

variable {config : Config} {entries : List TaskEntry} {file : ConfigFile} {overrides : Overrides}
  {current path : Path} {content name : Text} {target : Target}

/-- A list has no unknown target if every entry has a known one. -/
theorem unknownTarget?_eq_none_iff : Config.unknownTarget? entries = none ↔
    ∀ entry ∈ entries, ∃ target, Target.parse entry.target = .ok target := by
  induction entries with
  | nil => simp [Config.unknownTarget?]
  | cons entry rest ih =>
    rw [Config.unknownTarget?, List.forall_mem_cons]
    cases hparse : Target.parse entry.target with
    | error unknown => exact iff_of_false (nomatch ·) fun h => nomatch h.1
    | ok target => simpa using ih

/-- A configuration is accepted as it is, and only if every entry has a known target. -/
theorem validate_eq_ok_iff {found : Config} : Config.validate config = .ok found ↔
    config = found ∧ config.tasks ≠ [] ∧
      ∀ entry ∈ config.tasks, ∃ target, Target.parse entry.target = .ok target := by
  rw [Config.validate, ← unknownTarget?_eq_none_iff]
  split
  · next hempty => simp_all
  · next hempty =>
    cases Config.unknownTarget? config.tasks with
    | some unknown => simp
    | none => simp_all

/-- Every entry of a configuration that is read has a known target. -/
theorem known_of_read? {format : ConfigFormat}
    (h : Config.read? format content = .ok (some config)) :
    ∀ entry ∈ config.tasks, ∃ target, Target.parse entry.target = .ok target := by
  rcases Config.cases_of_read? h with ⟨-, -, hnone⟩ | ⟨found, accepted, hvalid, hsome⟩
  · cases hnone
  · obtain ⟨rfl, -, hknown⟩ := validate_eq_ok_iff.1 hvalid
    obtain rfl := Option.some.inj hsome
    exact hknown

/-- Every entry of a file that is read has a known target. -/
theorem known_of_read {format : ConfigFormat}
    (h : ConfigFile.read format path content = .ok file) :
    ∀ entry ∈ file.config.tasks, ∃ target, Target.parse entry.target = .ok target := by
  rw [ConfigFile.read] at h
  rcases hread : Config.read? format content with error | _ | config
  · rw [hread] at h
    cases h
  · rw [hread] at h
    cases h
  · rw [hread] at h
    obtain rfl := Except.ok.inj h
    exact known_of_read? hread

/-- Entries with known targets have tasks, one for each. -/
theorem exists_tasks (h : ∀ entry ∈ entries, ∃ target, Target.parse entry.target = .ok target) :
    ∃ tasks, entries.mapM (config.task overrides current) = .ok tasks ∧
      List.Forall₂ (fun entry task => Task.Resolves config overrides current entry task)
        entries tasks := by
  induction entries with
  | nil => exact ⟨[], rfl, .nil⟩
  | cons entry rest ih =>
    obtain ⟨⟨target, htarget⟩, hrest⟩ := List.forall_mem_cons.1 h
    obtain ⟨task, htask, hresolves⟩ := Config.exists_task htarget
    obtain ⟨tasks, htasks, hall⟩ := ih hrest
    refine ⟨task :: tasks, ?_, .cons hresolves hall⟩
    rw [List.mapM_cons, htask, htasks]
    rfl

/-- The only entry of a configuration that names a target and sets nothing is the task of
this target. -/
theorem tasks_of_spelled (h : target.Spelled name) :
    Config.resolve ⟨none, none, [⟨name, none, none, none, none⟩]⟩ overrides current =
      .ok [Task.ofTarget target overrides current] := by
  obtain ⟨input, output, clean, fixImports⟩ := overrides
  rw [Config.resolve, List.mapM_cons, Config.task, Target.parse_eq_ok_iff.2 h]
  cases input <;> cases output <;> cases clean <;> cases fixImports <;> rfl

end Tasks

/-- Every configuration that is read or loaded gives exactly one task for each of its entries,
in order, and every setting of a task is the first one that is given. A target from the command
line gives the only task of a configuration that names this target and sets nothing else. -/
theorem tasks_resolve :
    (∀ file, Loaded file → ∀ overrides current, ∃ tasks, file.tasks overrides current = .ok tasks ∧
      List.Forall₂ (fun entry task => Task.Resolves file.config overrides current entry task)
        file.config.tasks tasks) ∧
    ∀ target name overrides current path content, Target.Spelled target name →
      let config : Config := ⟨none, none, [⟨name, none, none, none, none⟩]⟩
      Config.validate config = .ok config ∧
        (ConfigFile.mk path content config).tasks overrides current =
          .ok [Task.ofTarget target overrides current] := by
  refine ⟨fun file hloaded overrides current => ?_, fun target name overrides current path content
    hspelled => ⟨?_, ?_⟩⟩
  · obtain ⟨format, path, content, hread⟩ := hloaded.exists_read
    obtain ⟨tasks, htasks, hall⟩ := exists_tasks (known_of_read hread)
    refine ⟨tasks, ?_, hall⟩
    rw [ConfigFile.tasks, Config.resolve, htasks]
    rfl
  · have hknown := Target.parse_eq_ok_iff.2 hspelled
    exact validate_eq_ok_iff.2 ⟨rfl, by simp, by simpa using ⟨target, hknown⟩⟩
  · rw [ConfigFile.tasks, tasks_of_spelled hspelled]
    rfl

/-- Two tasks that are read, one of them with settings of its own, and a target in mixed
case. -/
theorem tasks_resolve_listed :
    let content : Text :=
      "input = 'models'\n[[tasks]]\ntarget = 'Zod'\n[[tasks]]\ntarget = 'yup'\ninput = '/in'\n"
    let config : Config := ⟨some ⟨"models"⟩, none, [⟨"Zod", none, none, none, none⟩,
      ⟨"yup", some ⟨"/in"⟩, none, none, none⟩]⟩
    let overrides : Overrides := ⟨none, some ⟨"out"⟩, some false, none⟩
    (∃ tasks, (ConfigFile.mk ⟨"schemagen.toml"⟩ content config).tasks overrides ⟨"/work"⟩ =
        .ok tasks ∧
      List.Forall₂ (fun entry task => Task.Resolves config overrides ⟨"/work"⟩ entry task)
        config.tasks tasks) ∧
    (ConfigFile.mk ⟨"package.json"⟩ [] ⟨none, none, [⟨"JsonSchema", none, none, none, none⟩]⟩).tasks
        overrides ⟨"/work"⟩ =
      .ok [Task.ofTarget .jsonschema overrides ⟨"/work"⟩] := by
  intro content config overrides
  have hread : ConfigFile.read .toml ⟨"schemagen.toml"⟩ content =
      .ok ⟨⟨"schemagen.toml"⟩, content, config⟩ := by decide +kernel
  have hspelled : Target.Spelled .jsonschema "JsonSchema" := Target.spelled_iff.2 rfl
  exact ⟨tasks_resolve.1 _ (.read hread) overrides ⟨"/work"⟩,
    (tasks_resolve.2 .jsonschema "JsonSchema" overrides ⟨"/work"⟩ ⟨"package.json"⟩ [] hspelled).2⟩

end ConfigFile

end InterfaceSchema
