import InterfaceSchema.Path
import InterfaceSchema.Target

/-!
# Configurations and tasks

A configuration lists tasks and may give directories for all of them. A
setting of a task is the first one that is given on the command line, in the
entry of the task or for all tasks, and otherwise has a default. Relative
paths are seen from the working directory.
-/

namespace InterfaceSchema

/-- An entry of the list of tasks, as it is written. -/
structure TaskEntry where
  /-- The name of the target in any letter case. -/
  target : Text
  input : Option Path
  output : Option Path
  /-- Whether older output is removed first. -/
  clean : Option Bool
  /-- Whether import specifiers are completed. -/
  fixImports : Option Bool
deriving DecidableEq, Repr

/-- A configuration, as it is written. -/
structure Config where
  /-- The input directory of tasks that have none of their own. -/
  input : Option Path
  /-- The output directory of tasks that have none of their own. -/
  output : Option Path
  tasks : List TaskEntry
deriving DecidableEq, Repr

/-- Settings from the command line, which come first. -/
structure Overrides where
  input : Option Path
  output : Option Path
  clean : Option Bool
  fixImports : Option Bool
deriving DecidableEq, Repr

/-- A task with all its settings. -/
structure Task where
  target : Target
  input : Path
  output : Path
  clean : Bool
  fixImports : Bool
deriving DecidableEq, Repr

namespace Task

/-- The input directory if none is given. -/
def defaultInput : Path := ⟨"src/types"⟩

/-- The output directory if none is given. -/
def defaultOutput : Path := ⟨"src/generated"⟩

/-- The task for a target that is given on the command line. -/
def ofTarget (target : Target) (overrides : Overrides) (current : Path) : Task where
  target := target
  input := current.join (overrides.input.getD defaultInput)
  output := current.join (overrides.output.getD defaultOutput)
  clean := overrides.clean.getD true
  fixImports := overrides.fixImports.getD true

end Task

/-- The task of an entry. -/
def Config.task (config : Config) (overrides : Overrides) (current : Path) (entry : TaskEntry) :
    Except UnknownTarget Task := do
  let target ← Target.parse entry.target
  .ok {
    target := target
    input := current.join
      ((overrides.input <|> entry.input <|> config.input).getD Task.defaultInput)
    output := current.join
      ((overrides.output <|> entry.output <|> config.output).getD Task.defaultOutput)
    clean := (overrides.clean <|> entry.clean).getD true
    fixImports := (overrides.fixImports <|> entry.fixImports).getD true }

/-- The tasks of a configuration, in order. -/
def Config.resolve (config : Config) (overrides : Overrides) (current : Path) :
    Except UnknownTarget (List Task) :=
  config.tasks.mapM (config.task overrides current)

end InterfaceSchema
