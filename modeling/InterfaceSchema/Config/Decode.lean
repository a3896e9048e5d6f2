import InterfaceSchema.Config.Basic
import InterfaceSchema.Data.Record

/-!
# Configurations in structured data
-/

namespace InterfaceSchema

/-- An entry of the list of tasks while it is read. -/
structure TaskDraft where
  target : Option Text
  input : Option Path
  output : Option Path
  clean : Option Bool
  fixImports : Option Bool

namespace ConfigForm

/-- A path, or nothing. -/
def optionalPath (value : Value) : Except Fault (Option Path) :=
  (Value.optional (Value.asText "path string") value).map (Option.map Path.mk)

/-- A truth value, or nothing. -/
def optionalFlag (value : Value) : Except Fault (Option Bool) := Value.optional Value.asFlag value

/-- What an entry of the list of tasks is called. -/
def taskName : Text := "struct TaskConfig"

/-- The form of an entry of the list of tasks. -/
def task : RecordForm TaskDraft where
  expected := taskName
  fields := [
    ⟨"target", [], fun value draft => do
      .ok { draft with target := some (← Value.asText "a string" value) }⟩,
    ⟨"input", [], fun value draft => do .ok { draft with input := ← optionalPath value }⟩,
    ⟨"output", [], fun value draft => do .ok { draft with output := ← optionalPath value }⟩,
    ⟨"clean", [], fun value draft => do .ok { draft with clean := ← optionalFlag value }⟩,
    ⟨"fix_imports", ["fixImports"], fun value draft => do
      .ok { draft with fixImports := ← optionalFlag value }⟩]
  start := ⟨none, none, none, none, none⟩

/-- The fault of an entry without a target. -/
def lackingTarget : Value → Fault
  | .list items span =>
    ⟨.wrongLength items.length (taskName ++ " with 5 elements"), .lacking span⟩
  | value => ⟨.missing "target", .lacking value.span⟩

/-- Read an entry of the list of tasks. -/
def readTask (rule : SurplusRule) (value : Value) : Except Fault TaskEntry := do
  let draft ← task.read rule value
  match draft.target with
  | some target => .ok ⟨target, draft.input, draft.output, draft.clean, draft.fixImports⟩
  | none => .error (lackingTarget value)

/-- The form of a configuration. -/
def config (rule : SurplusRule) : RecordForm Config where
  expected := "struct Config"
  fields := [
    ⟨"input", [], fun value config => do .ok { config with input := ← optionalPath value }⟩,
    ⟨"output", [], fun value config => do .ok { config with output := ← optionalPath value }⟩,
    ⟨"tasks", [], fun value config => do
      let items ← value.asList
      .ok { config with tasks := ← items.mapM (readTask rule) }⟩]
  start := ⟨none, none, []⟩

/-- Read a configuration. -/
def read (rule : SurplusRule) (value : Value) : Except Fault Config := (config rule).read rule value

end ConfigForm

end InterfaceSchema
