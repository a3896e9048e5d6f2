import InterfaceSchema.Path

/-!
# Formats of configuration files
-/

namespace InterfaceSchema

/-- How a configuration is written. -/
inductive ConfigFormat where
  | toml
  | json
  /-- Under a key of the file that describes a package. -/
  | package
deriving DecidableEq, Repr

namespace ConfigFormat

/-- The name of the file that describes a package. -/
def packageFile : Text := "package.json"

/-- The key of the configuration in the file that describes a package. -/
def packageKey : Text := "schemagen"

/-- The format of a file by its name, or by the first character that is not
blank. -/
def detect (path : Path) (content : Text) : ConfigFormat :=
  if path.fileName? = some packageFile then .package
  else if path.extension? = some ("json" : Text) then .json
  else if path.extension? = some ("toml" : Text) then .toml
  else if (Text.trimStart content).head? = some '\x7b' then .json
  else .toml

end ConfigFormat

end InterfaceSchema
