import InterfaceSchema.Config.Read
import InterfaceSchema.Disk.Basic
import InterfaceSchema.Disk.Files

/-!
# Finding configurations

A configuration is looked for in a directory and all directories above it,
under a number of names in each. The first file found is used; only the
description of a package that holds no configuration is passed over.
-/

namespace InterfaceSchema

/-- Why there is no configuration. -/
inductive LoadError where
  /-- None was found from this directory on. -/
  | notFound (searched : Path)
  | unreadable (path : Path) (cause : DiskError)
  | faulty (path : Path) (content : Text) (error : ConfigError)
deriving DecidableEq, Repr

namespace LoadError

/-- The report about an error. -/
def diagnostic : LoadError → Diagnostic
  | notFound _ =>
    { message := "no configuration file found"
      code := some ("schemagen::config_not_found" : Text)
      help := some ("pass a target (e.g. 'schemagen zod') or create schemagen.toml with at least one [[tasks]] entry" : Text)
      labels := []
      file := none }
  | unreadable path _ =>
    { message := (Doing.reading path).message, code := none, help := none, labels := [], file := none }
  | faulty path content error => error.diagnostic path.text content

end LoadError

namespace ConfigFile

variable {m : Type → Type} [Monad m] [Disk m]

/-- Steps that find and read configurations. -/
abbrev LoadM (m : Type → Type) (α : Type) := ExceptT LoadError m α

/-- The text of a configuration file. -/
def contentOf (path : Path) : LoadM m Text :=
  ExceptT.mk do
    match ← Disk.readText path with
    | .ok text => pure (.ok text)
    | .error cause => pure (.error (.unreadable path cause))

/-- Read the configuration in a file. -/
def openAt (path : Path) : LoadM m ConfigFile := do
  let content ← contentOf path
  match ConfigFile.read (.detect path content) path content with
  | .ok file => return file
  | .error error => throw (.faulty path content error)

/-- The names of configuration files, the preferred one first. -/
def fileNames : List Text :=
  ["schemagen.toml".toList, ".schemagenrc.toml".toList, ".schemagenrc.json".toList,
    ".schemagenrc".toList, ConfigFormat.packageFile]

/-- The files that may hold the configuration for a directory, the preferred
one first. -/
def candidates (start : Path) : List Path :=
  start.ancestors.flatMap fun directory => fileNames.map fun name => directory.join ⟨name⟩

/-- Whether a file is passed over because it describes a package without a
configuration. -/
def isPassedOver (path : Path) : LoadM m Bool := do
  if path.fileName? = some ConfigFormat.packageFile then
    let content ← contentOf path
    match Config.read? .package content with
    | .ok none => return true
    | .ok (some _) => return false
    | .error error => throw (.faulty path content error)
  else return false

/-- The configuration in the first of the files that has one. -/
def firstOf : List Path → LoadM m (Option ConfigFile)
  | [] => pure none
  | path :: rest => do
    if ← ExceptT.lift (Disk.isFile path) then
      if ← isPassedOver path then firstOf rest
      else
        let file ← openAt path
        return some file
    else firstOf rest

/-- The configuration for a directory, if there is one. -/
def discover (start : Path) : LoadM m (Option ConfigFile) := firstOf (candidates start)

/-- The configuration in the given file, or else the one for the current
directory. -/
def load (given : Option Path) (current : Path) : LoadM m ConfigFile := do
  match given with
  | some path => openAt (current.join path)
  | none =>
    match ← discover current with
    | some file => return file
    | none => throw (.notFound current)

end ConfigFile

end InterfaceSchema
