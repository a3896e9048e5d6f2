import InterfaceSchema.Text.Search

/-!
# Names of extracted interfaces

An interface extracted from a property is named after the interface it came
from and the property, with a fixed separator between them. The separator is
looked for from the left, occurrences not overlapping.
-/

namespace InterfaceSchema.Naming

/-- What stands between the two parts of an extracted name. -/
def separator : Text := "_properties_"

/-- The name of the interface extracted from `property` of `parent`. -/
def extracted (parent property : Text) : Text := parent ++ (separator ++ property)

/-- Whether some separator has text before and after it. -/
def isExtracted (name : Text) : Bool :=
  (Text.occurrences separator name).any fun position =>
    0 < position && position + separator.length < name.length

/-- Whether no separator has text after it. -/
def isPrimary (name : Text) : Bool :=
  !(Text.occurrences separator name).any fun position =>
    position + separator.length < name.length

end InterfaceSchema.Naming
