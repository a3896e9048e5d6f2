import InterfaceSchema.Command

/-!
# The program

The command runs on the disk of the system. What it shows goes to the standard
output; warnings and errors go to the standard error.
-/

namespace InterfaceSchema

namespace SystemDisk

/-- The error that the system has reported. -/
def ofSystem : IO.Error → DiskError
  | .noFileOrDirectory .. => .notFound
  | .alreadyExists .. => .alreadyExists
  | .inappropriateType _ code _ => if code = 21 then .isDirectory else .notDirectory
  | error => .other error.toString.toList

/-- The answer of the system, or its error. -/
def attempt {α : Type} (action : IO α) : IO (Except DiskError α) := do
  match ← action.toBaseIO with
  | .ok result => return .ok result
  | .error error => return .error (ofSystem error)

/-- A path as the system takes it. -/
def spelled (path : Path) : String := String.ofList path.text

/-- What stands at a path. -/
def typeOf? (path : Path) : IO (Option IO.FS.FileType) := do
  match ← (System.mkFilePath [spelled path]).metadata.toBaseIO with
  | .ok metadata => return some metadata.type
  | .error _ => return none

/-- Whether a path leads to a directory. -/
def isDirectory (path : Path) : IO Bool := return (← typeOf? path) == some .dir

/-- The text of a file. -/
def readText (path : Path) : IO (Except DiskError Text) := do
  match ← attempt (IO.FS.readBinFile (spelled path)) with
  | .error error => return .error error
  | .ok bytes =>
    match String.fromUTF8? bytes with
    | some text => return .ok text.toList
    | none => return .error .notText

/-- Make a directory whose parent is there. One that is there already is no
error. -/
def makeDir (path : Path) : IO (Except DiskError Unit) := do
  match ← attempt (IO.FS.createDir (spelled path)) with
  | .ok () => return .ok ()
  | .error error => if ← isDirectory path then return .ok () else return .error error

/-- Make the first of a list of directories, each of which lies in the next
one. -/
def makeAll : List Path → IO (Except DiskError Unit)
  | [] => return .ok ()
  | path :: above => do
    if path.text.isEmpty then return .ok ()
    match ← makeDir path with
    | .error .notFound =>
      match ← makeAll above with
      | .ok () => makeDir path
      | .error error => return .error error
    | result => return result

/-- The names that lead to the files below a directory, in order. -/
partial def filesBelow (path : Path) : IO (List (List Text)) := do
  match ← (System.mkFilePath [spelled path]).readDir.toBaseIO with
  | .error _ => return []
  | .ok entries =>
    let names := entries.toList.map fun entry => entry.fileName.toList
    let found ← (names.mergeSort fun a b => decide (a ≤ b)).mapM fun name => do
      let inner := path.join ⟨name⟩
      match ← typeOf? inner with
      | some .dir => return (← filesBelow inner).map fun rest => name :: rest
      | some .file => return [[name]]
      | _ => return []
    return found.flatten

end SystemDisk

/-- The disk of the system. -/
instance : Disk IO where
  readText := SystemDisk.readText
  writeText path text :=
    SystemDisk.attempt (IO.FS.writeFile (SystemDisk.spelled path) (String.ofList text))
  makeDirs path := SystemDisk.makeAll path.ancestors
  removeDir path := SystemDisk.attempt (IO.FS.removeDirAll (SystemDisk.spelled path))
  isThere path := return (← SystemDisk.typeOf? path).isSome
  isFile path := return (← SystemDisk.typeOf? path) == some .file
  filesBelow := SystemDisk.filesBelow

/-- Show an outcome. -/
def Outcome.print (outcome : Outcome) : IO Unit := do
  let output ← IO.getStdout
  output.putStr (String.ofList outcome.output)
  output.flush
  for line in outcome.warnings ++ outcome.errors do
    IO.eprintln (String.ofList line)

end InterfaceSchema

/-- Run the command with the arguments of the program. -/
def main (arguments : List String) : IO UInt32 := do
  let current ← IO.currentDir
  let outcome : InterfaceSchema.Outcome ←
    InterfaceSchema.Command.run (arguments.map String.toList) ⟨current.toString.toList⟩
  outcome.print
  return outcome.exitCode
