import InterfaceSchema.Data.Value

/-!
# Records in structured data

A record is read from a table, whose keys are the names of its fields, or
from a list of the fields in their order. Keys that name no field are passed
over.
-/

namespace InterfaceSchema

/-- A field of a record that is collected in a `σ`. -/
structure RecordField (σ : Type) where
  name : Text
  /-- Other spellings of the name. -/
  others : List Text
  /-- Read the field and put it into the record. -/
  store : Value → σ → Except Fault σ

/-- What happens to items of a list that the record has no field for. -/
inductive SurplusRule where
  | ignored
  /-- They do not belong into the text. -/
  | trailing
  /-- The list is too long. -/
  | counted
deriving DecidableEq, Repr

/-- The form of a record. -/
structure RecordForm (σ : Type) where
  /-- What is expected where the record should stand. -/
  expected : Text
  fields : List (RecordField σ)
  /-- The record before any field is read. -/
  start : σ

namespace RecordField

/-- Whether a key names the field. -/
def accepts {σ : Type} (key : Text) (field : RecordField σ) : Bool :=
  field.name == key || field.others.contains key

end RecordField

namespace RecordForm

variable {σ : Type}

/-- Read the entries of the table at `span`; the fields in `seen` have been
read. -/
def readEntries (form : RecordForm σ) (span : Span) (seen : List Text) (record : σ) :
    List Entry → Except Fault σ
  | [] => .ok record
  | entry :: rest => do
    let key ← entry.key
    match form.fields.find? (RecordField.accepts key) with
    | none =>
      entry.value.skip
      form.readEntries span seen record rest
    | some field =>
      if seen.contains field.name then
        .error ⟨.duplicate field.name, .repeated span entry.afterKey⟩
      else do
        let record ← field.store entry.value record
        form.readEntries span (field.name :: seen) record rest

/-- Read one field after another from a list. What is left over is given
back. -/
def readItems (record : σ) : List (RecordField σ) → List Value → Except Fault (σ × List Value)
  | field :: fields, item :: items => do
    let record ← field.store item record
    readItems record fields items
  | _, items => .ok (record, items)

/-- The fault of items that no field is left for. -/
def surplusFault (rule : SurplusRule) (span : Span) (length : Nat) : List Value → Option Fault
  | [] => none
  | item :: _ =>
    match rule with
    | .ignored => none
    | .counted => some ⟨.wrongLength length "fewer elements in array", .lacking span⟩
    | .trailing =>
      match item with
      | .refused ⟨.malformed .trailingComma, site⟩ _ _ => some ⟨.malformed .trailingComma, site⟩
      | .refused ⟨.malformed .endInList, site⟩ _ _ => some ⟨.malformed .endInList, site⟩
      | _ => some ⟨.malformed .trailingCharacters, .surplus item.span.start⟩

/-- Read a record. -/
def read (form : RecordForm σ) (rule : SurplusRule) : Value → Except Fault σ
  | .table entries span => form.readEntries span [] form.start entries
  | .list items span => do
    let (record, extra) ← readItems form.start form.fields items
    match surplusFault rule span items.length extra with
    | some fault => .error fault
    | none => .ok record
  | value => .error (value.misfit form.expected)

end RecordForm

namespace Value

/-- The text of a value. -/
def asText (expected : Text) : Value → Except Fault Text
  | text value _ => .ok value
  | value => .error (value.misfit expected)

/-- The truth value of a value. -/
def asFlag : Value → Except Fault Bool
  | flag value _ => .ok value
  | value => .error (value.misfit "a boolean")

/-- The items of a value. -/
def asList : Value → Except Fault (List Value)
  | list items _ => .ok items
  | value => .error (value.misfit "a sequence")

/-- Nothing for null, and otherwise what is read. -/
def optional {α : Type} (read : Value → Except Fault α) : Value → Except Fault (Option α)
  | null _ => .ok none
  | value => (read value).map some

end Value

end InterfaceSchema
