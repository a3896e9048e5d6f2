import InterfaceSchema.Config.Decode
import InterfaceSchema.Config.Format
import InterfaceSchema.Diagnostic
import InterfaceSchema.Json.Document
import InterfaceSchema.Text.Position
import InterfaceSchema.Toml.Document

/-!
# Reading configurations

A configuration is read from TOML, from JSON or from a key of the JSON file
that describes a package. It has to list at least one task, and every task
has to name a target.
-/

namespace InterfaceSchema

/-- Where the places of a fault come from. -/
inductive FaultOrigin where
  | toml
  | json
  /-- A part of a document that is read on its own; places do not count. -/
  | part
deriving DecidableEq, Repr

/-- What is wrong with a configuration. -/
inductive ConfigError where
  /-- It is not well formed TOML. -/
  | malformed
  | fault (origin : FaultOrigin) (fault : Fault)
  | emptyTasks
  | invalidTarget (unknown : UnknownTarget)
deriving DecidableEq, Repr

namespace Config

/-- Read a configuration from TOML. -/
def ofToml (content : Text) : Except ConfigError Config :=
  match Toml.read? content with
  | none => .error .malformed
  | some root => (ConfigForm.read .ignored root).mapError (.fault .toml)

/-- What is read from a JSON document if nothing follows it. -/
def complete {α : Type} (document : Json.Document) (read : Value → Except Fault α) :
    Except Fault α := do
  let result ← read document.root
  match document.trailing with
  | some fault => .error fault
  | none => .ok result

/-- Read a configuration from JSON. -/
def ofJson (content : Text) : Except ConfigError Config :=
  (complete (Json.Document.read content) (ConfigForm.read .trailing)).mapError (.fault .json)

/-- How deep lists and tables may be nested in the description of a
package. -/
def packageDepth : Nat := 127

/-- The value of a key, if the value is a table that has it. -/
def member? (key : Text) : Value → Option Value
  | .table entries _ =>
    (entries.find? fun entry => Entry.sameKey entry.key (.ok key)).map Entry.value
  | _ => none

/-- Read a configuration from the description of a package, if it has one. -/
def ofPackage (content : Text) : Except ConfigError (Option Config) := do
  let document := Json.Document.read content
  let _ ← (complete document (Value.useAll packageDepth)).mapError (ConfigError.fault .json)
  match member? ConfigFormat.packageKey document.root.sorted with
  | none => .ok none
  | some part => ((ConfigForm.read .counted part).mapError (ConfigError.fault .part)).map some

/-- The first entry whose target nobody knows. -/
def unknownTarget? : List TaskEntry → Option UnknownTarget
  | [] => none
  | entry :: rest =>
    match Target.parse entry.target with
    | .error unknown => some unknown
    | .ok _ => unknownTarget? rest

/-- The configuration, if it has tasks and knows their targets. -/
def validate (config : Config) : Except ConfigError Config :=
  if config.tasks.isEmpty then .error .emptyTasks
  else
    match unknownTarget? config.tasks with
    | some unknown => .error (.invalidTarget unknown)
    | none => .ok config

/-- Read a configuration. The description of a package need not have one. -/
def read? (format : ConfigFormat) (content : Text) : Except ConfigError (Option Config) := do
  let found ← match format with
    | .toml => (ofToml content).map some
    | .json => (ofJson content).map some
    | .package => ofPackage content
  match found with
  | none => .ok none
  | some config => (validate config).map some

end Config

/-- A configuration and the file it was read from. -/
structure ConfigFile where
  path : Path
  content : Text
  config : Config
deriving DecidableEq, Repr

namespace ConfigFile

/-- Read a configuration that has to be there. -/
def read (format : ConfigFormat) (path : Path) (content : Text) : Except ConfigError ConfigFile := do
  match ← Config.read? format content with
  | none => .error .emptyTasks
  | some config => .ok ⟨path, content, config⟩

/-- The tasks of the configuration. -/
def tasks (file : ConfigFile) (overrides : Overrides) (current : Path) :
    Except ConfigError (List Task) :=
  (file.config.resolve overrides current).mapError .invalidTarget

end ConfigFile

namespace ConfigError

/-- Where a text stands between quotes, double ones before single ones. -/
def quotedSpan? (content value : Text) : Option Span :=
  ['"', '\''].findSome? fun quote =>
    let sought := quote :: (value ++ [quote])
    (Text.splitFirst? sought content).map fun (before, _) =>
      ⟨Text.byteLength before, Text.byteLength before + Text.byteLength sought⟩

/-- The wording of a fault, with its line and column in JSON. -/
def faultMessage (content : Text) (origin : FaultOrigin) (fault : Fault) : Text :=
  match origin with
  | .toml | .part => fault.problem.message
  | .json =>
    let place := Text.lineColumn content (fault.site.readUpTo (Text.byteLength content))
    fault.problem.message ++ (" at line " ++ (decimalDigits place.line ++ (" column " ++
      decimalDigits place.column)))

/-- The span a fault is shown at. -/
def faultSpan? (content : Text) (origin : FaultOrigin) (fault : Fault) : Option Span :=
  match origin with
  | .part => none
  | .toml => some fault.site.span
  | .json =>
    let place := Text.lineColumn content (fault.site.readUpTo (Text.byteLength content))
    (Text.offsetOf? content place.line place.column).map fun offset => ⟨offset, offset⟩

/-- A label for a span, if there is one. -/
def labelAt (text : Text) (span : Option Span) : List Label :=
  match span with
  | some span => [⟨text, span⟩]
  | none => []

/-- The report about a configuration that cannot be read. -/
def parseDiagnostic (file : Text) (message : Text) (span : Option Span) : Diagnostic where
  message := "failed to parse configuration: " ++ message
  code := some ("schemagen::config_parse_error" : Text)
  help := none
  labels := labelAt "parse error here" span
  file := some file

/-- The report about an error in a file with the given content. -/
def diagnostic (file content : Text) : ConfigError → Diagnostic
  | malformed => parseDiagnostic file "invalid TOML" none
  | fault origin found =>
    parseDiagnostic file (faultMessage content origin found) (faultSpan? content origin found)
  | emptyTasks =>
    { message := "configuration defines no tasks"
      code := some ("schemagen::empty_tasks" : Text)
      help := some ("add a task, e.g.\n\n[[tasks]]\ntarget = \"zod\"" : Text)
      labels := []
      file := some file }
  | invalidTarget unknown =>
    { message := unknown.message
      code := some ("schemagen::invalid_target" : Text)
      help := none
      labels := labelAt "unknown target" (quotedSpan? content unknown.name)
      file := some file }

end ConfigError

end InterfaceSchema
