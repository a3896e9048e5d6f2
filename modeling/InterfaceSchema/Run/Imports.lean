import InterfaceSchema.Disk.Files
import InterfaceSchema.Specifier

/-!
# Completing specifiers in files
-/

namespace InterfaceSchema

/-- What completing specifiers has done. -/
structure ImportSummary where
  /-- How many files were read. -/
  scanned : Nat
  /-- The files that were changed. -/
  fixed : List Path
deriving DecidableEq, Repr

namespace Specifier

variable {m : Type → Type} [Monad m] [Disk m]

/-- Complete the specifiers in files. The changed files are given back. -/
def completeFiles : List Path → DiskM m (List Path)
  | [] => pure []
  | path :: rest => do
    let content ← Disk.read path
    match complete? content with
    | none => completeFiles rest
    | some fixed =>
      Disk.overwrite path fixed
      let others ← completeFiles rest
      return path :: others

/-- Complete the specifiers in all source files below a directory. -/
def completeBelow (directory : Path) : DiskM m ImportSummary := do
  let files ← ExceptT.lift (Disk.sourceFiles directory)
  let fixed ← completeFiles files
  return ⟨files.length, fixed⟩

end Specifier

end InterfaceSchema
