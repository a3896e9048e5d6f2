import InterfaceSchema.Flatten
import InterfaceSchema.Schema

/-!
# Diagnostics

A diagnostic is what a user is told about a fault: a message, an optional
code and advice, and labels that point into a named file.
-/

namespace InterfaceSchema

/-- A remark about a part of a file. -/
structure Label where
  text : Text
  span : Span
deriving DecidableEq, Repr

/-- What is reported about a fault. -/
structure Diagnostic where
  message : Text
  code : Option Text
  /-- What to do about it. -/
  help : Option Text
  labels : List Label
  /-- The file the labels point into. -/
  file : Option Text
deriving DecidableEq, Repr

/-- The report about a taken name. -/
def Flatten.NameCollision.diagnostic (file : Text) (collision : Flatten.NameCollision) :
    Diagnostic where
  message := "flattened interface name '" ++ collision.name ++ "' is already declared"
  code := some ("schemagen::name_collision" : Text)
  help := some ("rename the existing declaration or the property so '" ++ collision.name ++
    "' is unique")
  labels := [⟨"property would be extracted as '" ++ collision.name ++ "'", collision.span⟩]
  file := some file

namespace Unsupported

/-- What has no schema; a type is shown as it stands in the source. -/
def subject (source : Text) : Unsupported → Text
  | .type span => "type '" ++ span.slice source ++ "'"
  | .genericInterface _ => "a generic interface"
  | .genericAlias _ => "a generic type alias"

/-- The report about something that has no schema. -/
def diagnostic (file source : Text) (unsupported : Unsupported) : Diagnostic where
  message := unsupported.subject source ++ " cannot be converted to a schema"
  code := some ("schemagen::unsupported" : Text)
  help := some ("use interfaces, type aliases, literals, arrays, tuples, unions and intersections" : Text)
  labels := [⟨"unsupported here", unsupported.span⟩]
  file := some file

end Unsupported

/-- The report about a source that is not well formed. -/
def malformedDiagnostic (file : Text) : Diagnostic where
  message := "invalid TypeScript"
  code := some ("schemagen::syntax_error" : Text)
  help := none
  labels := []
  file := some file

end InterfaceSchema
