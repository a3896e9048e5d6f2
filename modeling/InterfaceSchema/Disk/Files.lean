import InterfaceSchema.Disk.Basic

/-!
# Reading and writing files

A step on the disk that fails is reported together with what was being done.
A file that has the right content already is not written again.
-/

namespace InterfaceSchema

/-- What is being done when something fails. -/
inductive Doing where
  | removing (path : Path)
  | reading (path : Path)
  | writing (path : Path)
  | makingDirectory (path : Path)
  | writingBarrels
  | fixingImports (path : Path)
deriving DecidableEq, Repr

/-- A path between single quotes. -/
def Path.quoted (path : Path) : Text := '\'' :: (path.text ++ ['\''])

/-- The wording of what is being done. -/
def Doing.message : Doing → Text
  | .removing path => "failed to remove " ++ path.quoted
  | .reading path => "failed to read " ++ path.quoted
  | .writing path => "failed to write " ++ path.quoted
  | .makingDirectory path => "failed to create directory " ++ path.quoted
  | .writingBarrels => "failed to write barrel files"
  | .fixingImports path => "failed to fix imports in " ++ path.quoted

/-- A failure on the disk. -/
structure DiskFailure where
  /-- What was being done, the widest description first. -/
  doing : List Doing
  cause : DiskError
deriving DecidableEq, Repr

/-- The wordings of a failure, the widest one first. -/
def DiskFailure.chain (failure : DiskFailure) : List Text :=
  failure.doing.map Doing.message ++ [failure.cause.message]

/-- A failure as part of something wider. -/
def DiskFailure.within (doing : Doing) (failure : DiskFailure) : DiskFailure :=
  { failure with doing := doing :: failure.doing }

/-- What writing a file has done. -/
inductive WriteResult where
  | written
  /-- The file had the right content already. -/
  | unchanged
deriving DecidableEq, Repr

/-- Steps on a disk that may fail. -/
abbrev DiskM (m : Type → Type) (α : Type) := ExceptT DiskFailure m α

namespace Disk

variable {m : Type → Type} [Monad m] [Disk m]

/-- A step that is reported as `doing` if it fails. -/
def step {α : Type} (doing : Doing) (action : m (Except DiskError α)) : DiskM m α :=
  ExceptT.mk do
    match ← action with
    | .ok result => pure (.ok result)
    | .error cause => pure (.error ⟨[doing], cause⟩)

/-- Steps that are part of something wider. -/
def within {α : Type} (doing : Doing) (action : DiskM m α) : DiskM m α :=
  ExceptT.mk do
    match ← action.run with
    | .ok result => pure (.ok result)
    | .error failure => pure (.error (failure.within doing))

/-- The text of a file. -/
def read (path : Path) : DiskM m Text := step (.reading path) (Disk.readText path)

/-- Give an existing file a text. -/
def overwrite (path : Path) (content : Text) : DiskM m Unit :=
  step (.writing path) (Disk.writeText path content)

/-- Give a file a text, in a directory that is made if it is missing. -/
def save (path : Path) (content : Text) : DiskM m Unit := do
  if let some parent := path.parent? then
    step (.makingDirectory parent) (Disk.makeDirs parent)
  overwrite path content

/-- Give a file a text unless it has this text already. -/
def update (path : Path) (content : Text) : DiskM m WriteResult := do
  match ← ExceptT.lift (Disk.readText path) with
  | .ok existing =>
    if existing = content then return .unchanged
    else
      save path content
      return .written
  | .error _ =>
    save path content
    return .written

/-- Remove a directory with all it holds. -/
def removeDirectory (path : Path) : DiskM m Unit := step (.removing path) (Disk.removeDir path)

/-- The path to the files below a directory: the directory without single
dots, then a slash. -/
def stem (directory : Path) : Text :=
  let named := directory.components.filter fun component =>
    component ≠ Component.root ∧ component ≠ Component.here
  let start : Text := if directory.isAbsolute ∨ directory.text.isEmpty then "/" else ""
  start ++ named.flatMap fun component => component.text ++ ['/']

/-- The name that all source files end with. -/
def sourceEnding : Text := ".ts"

/-- The source files below a directory, in order. -/
def sourceFiles (directory : Path) : m (List Path) := do
  let below ← Disk.filesBelow (if directory.text.isEmpty then ⟨"/"⟩ else directory)
  let sources := below.filter fun names =>
    names.getLast?.any fun name => sourceEnding.isSuffixOf name
  return sources.map fun names => ⟨stem directory ++ Text.joinWith "/" names⟩

end Disk

end InterfaceSchema
