import InterfaceSchema.Generate
import InterfaceSchema.Run.Barrels
import InterfaceSchema.Run.Imports

/-!
# Runs

A run removes older output if it should, writes the schema file of every
source file, then the barrels, and completes import specifiers at the end. It
stops at the first failure. A run without source files only warns about
them.
-/

namespace InterfaceSchema

/-- Why a run fails. -/
inductive RunError where
  | disk (failure : DiskFailure)
  /-- No code can be generated from a source file, known by `name` in
  reports. -/
  | generate (target : Target) (input : Path) (name : Text) (error : GenerateError)
deriving DecidableEq, Repr

namespace RunError

/-- The wording for a source file that no code can be generated from. -/
def generateMessage (target : Target) (input : Path) : Text :=
  "failed to generate " ++ (target.name ++ (" schema for " ++ input.quoted))

/-- The wordings of an error, the widest one first. -/
def chain : RunError → List Text
  | disk failure => failure.chain
  | generate target input name error =>
    [generateMessage target input, (error.diagnostic name).message]

end RunError

/-- A schema file and the source file it comes from. -/
structure GeneratedFile where
  input : Path
  output : Path
  result : WriteResult
deriving DecidableEq, Repr

/-- What a run has done. -/
structure RunSummary where
  target : Target
  baseDir : Path
  schemaDir : Path
  files : List GeneratedFile
  barrels : BarrelSummary
  /-- Nothing if specifiers were not completed. -/
  imports : Option ImportSummary
  noInputs : Bool
  warnings : List Text
deriving DecidableEq, Repr

namespace Run

variable {m : Type → Type} [Monad m] [Disk m]

/-- Steps of a run. -/
abbrev RunM (m : Type → Type) (α : Type) := ExceptT RunError m α

/-- Steps on the disk as steps of a run. -/
def onDisk {α : Type} (action : DiskM m α) : RunM m α :=
  ExceptT.mk do
    match ← action.run with
    | .ok result => pure (.ok result)
    | .error failure => pure (.error (.disk failure))

/-- Remove older output. -/
def cleanOutput (options : RunOptions) : RunM m Unit := do
  if options.clean then
    if ← ExceptT.lift (Disk.isThere options.baseDir) then
      onDisk (Disk.removeDirectory options.baseDir)

/-- Write the schema file of a source file. -/
def generateFile (options : RunOptions) (input : Path) : RunM m GeneratedFile := do
  let relative := relativeInput input options.inputDir
  let output := options.schemaDir.join relative
  let source ← onDisk (Disk.read input)
  match schemaFileFor options.target source with
  | .error error => throw (.generate options.target input relative.text error)
  | .ok content =>
    let result ← onDisk (Disk.update output content)
    return ⟨input, output, result⟩

/-- Write the schema files of source files. -/
def generateFiles (options : RunOptions) : List Path → RunM m (List GeneratedFile)
  | [] => pure []
  | input :: rest => do
    let first ← generateFile options input
    let others ← generateFiles options rest
    return first :: others

/-- The warning about an input directory without source files. -/
def noInputsWarning (options : RunOptions) : Text :=
  "no .ts files found in " ++ options.inputDir.quoted

/-- What a run without source files has done. -/
def emptySummary (options : RunOptions) : RunSummary :=
  ⟨options.target, options.baseDir, options.schemaDir, [], .none, none, true,
    [noInputsWarning options]⟩

/-- Complete specifiers, if they should be completed. -/
def completeOutput (options : RunOptions) : RunM m (Option ImportSummary) :=
  if options.fixImports then do
    let summary ← onDisk (Disk.within (.fixingImports options.baseDir)
      (Specifier.completeBelow options.baseDir))
    return some summary
  else pure none

/-- Generate all output for the given source files. -/
def generateAll (options : RunOptions) (inputs : List Path) : RunM m RunSummary := do
  let files ← generateFiles options inputs
  let barrels ← onDisk (Disk.within .writingBarrels
    (Barrel.writeAll options.baseDir options.schemaDir options.inputDir inputs))
  let imports ← completeOutput options
  return ⟨options.target, options.baseDir, options.schemaDir, files, barrels, imports, false,
    barrels.skipped⟩

/-- A whole run. -/
def run (options : RunOptions) : RunM m RunSummary := do
  cleanOutput options
  let inputs ← ExceptT.lift (Disk.sourceFiles options.inputDir)
  if inputs.isEmpty then return emptySummary options
  else generateAll options inputs

end Run

end InterfaceSchema
