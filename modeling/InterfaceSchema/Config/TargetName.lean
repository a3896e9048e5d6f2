import InterfaceSchema.Json.Document
import InterfaceSchema.Target

/-!
# Targets in JSON

A target is a string that is exactly its name, or a table whose only key is
this name and whose value is null.
-/

namespace InterfaceSchema.Target

/-- The target that a value stands for. -/
def ofValue? : Value → Option Target
  | .text name _ => ofName? name
  | .table [⟨.ok name, _, .null _⟩] _ => ofName? name
  | _ => none

/-- The target that a JSON document holds. -/
def ofJson? (text : Text) : Option Target :=
  let document := Json.Document.read text
  match document.trailing with
  | some _ => none
  | none => ofValue? document.root

/-- The target as a JSON document. -/
def toJson (target : Target) : Text := Json.quote target.name

end InterfaceSchema.Target
