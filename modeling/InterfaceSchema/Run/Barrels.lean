import InterfaceSchema.Barrel
import InterfaceSchema.Disk.Files
import InterfaceSchema.Run.Layout
import InterfaceSchema.Specifier

/-!
# Writing barrels

For every source file the names that its schema file exports are written to
the barrels in a directory named after the file. A barrel without names is
not written, and a source file without a schema file is passed over.
-/

namespace InterfaceSchema

/-- What writing barrels has done. -/
structure BarrelSummary where
  /-- The barrels that are up to date now. -/
  written : List Path
  /-- Warnings about missing schema files. -/
  skipped : List Text
deriving DecidableEq, Repr

namespace BarrelSummary

/-- Nothing done. -/
def none : BarrelSummary := ⟨[], []⟩

/-- What two steps have done. -/
def append (a b : BarrelSummary) : BarrelSummary := ⟨a.written ++ b.written, a.skipped ++ b.skipped⟩

end BarrelSummary

namespace Barrel

variable {m : Type → Type} [Monad m] [Disk m]

/-- The warning about a missing schema file. -/
def missingSchema (schema input : Path) : Text :=
  "generated file " ++ (schema.quoted ++ (" not found, skipping barrels for " ++ input.quoted))

/-- Write a barrel of the given names, unless no name belongs into it. -/
def writeKind (directory : Path) (specifier : Text) (names : List Text) (kind : BarrelKind) :
    DiskM m BarrelSummary := do
  let selected := kind.select names
  if selected.isEmpty then return .none
  else
    let path := directory.join ⟨kind.fileName⟩
    let _ ← Disk.update path (render selected specifier)
    return ⟨[path], []⟩

/-- Write barrels of several kinds. -/
def writeKinds (directory : Path) (specifier : Text) (names : List Text) :
    List BarrelKind → DiskM m BarrelSummary
  | [] => pure .none
  | kind :: rest => do
    let first ← writeKind directory specifier names kind
    let others ← writeKinds directory specifier names rest
    return first.append others

/-- Write the barrels for a source file. -/
def writeFor (baseDir schemaDir inputDir input : Path) : DiskM m BarrelSummary := do
  let schema := schemaDir.join (relativeInput input inputDir)
  if ← ExceptT.lift (Disk.isFile schema) then
    let content ← Disk.read schema
    match input.fileStem? with
    | none => return .none
    | some stem =>
      let directory := baseDir.join ⟨stem⟩
      writeKinds directory (Specifier.ofPath directory schema) (exports content) BarrelKind.all
  else return ⟨[], [missingSchema schema input]⟩

/-- Write the barrels for source files. -/
def writeAll (baseDir schemaDir inputDir : Path) : List Path → DiskM m BarrelSummary
  | [] => pure .none
  | input :: rest => do
    let first ← writeFor baseDir schemaDir inputDir input
    let others ← writeAll baseDir schemaDir inputDir rest
    return first.append others

end Barrel

end InterfaceSchema
