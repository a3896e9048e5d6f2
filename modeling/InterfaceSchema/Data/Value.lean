import InterfaceSchema.Data.Fault
import InterfaceSchema.Text.Shown

/-!
# Structured data

A value is what a JSON or TOML text holds, with the place of every part. If
the text cannot be read to its end, the value holds all that was read, and a
refused value where reading stopped. So a reader of the value can find an
earlier fault of another kind first.
-/

namespace InterfaceSchema

mutual

/-- A value in a text. -/
inductive Value where
  | null (span : Span)
  | flag (value : Bool) (span : Span)
  | integer (value : Int) (span : Span)
  /-- A number with a fraction, as it is shown. -/
  | decimal (numeral : Text) (span : Span)
  | text (value : Text) (span : Span)
  | list (items : List Value) (span : Span)
  | table (entries : List Entry) (span : Span)
  /-- Something that cannot be used; it may still be possible to pass over
  it. -/
  | refused (used : Fault) (skipped : Option Fault) (span : Span)

/-- A key and its value. -/
structure Entry where
  key : Except Fault Text
  /-- Position after the key and what can be passed over behind it. -/
  afterKey : Nat
  value : Value

end

namespace Value

/-- Where the value stands. -/
def span : Value → Span
  | null span | flag _ span | integer _ span | decimal _ span | text _ span | list _ span
  | table _ span | refused _ _ span => span

/-- The marks around a value that a message quotes. -/
def ticked (kind : Text) (value : Text) : Text := kind ++ (" `" ++ (value ++ ['`']))

/-- The first whole number that does not fit into so many bits. -/
def bitLimit (bits : Nat) : Int := Nat.pow 2 bits

/-- What a message says about the width of an integer beyond 64 bits. -/
def integerWidth (n : Int) : Text :=
  if -bitLimit 63 ≤ n ∧ n < bitLimit 64 then "" else if n < bitLimit 127 then " as i128" else " as u128"

/-- What a message calls an integer. -/
def integerKind (n : Int) : Text :=
  let digits := decimalDigits n.natAbs
  ticked "integer" (if n < 0 then '-' :: digits else digits) ++ integerWidth n

/-- What a message calls the value. -/
def kind : Value → Text
  | null _ => "null"
  | flag value _ => ticked "boolean" (if value then "true" else "false").toList
  | integer value _ => integerKind value
  | decimal numeral _ => ticked "floating point" numeral
  | text value _ => "string " ++ Text.shown value
  | list _ _ => "sequence"
  | table _ _ => "map"
  | refused _ _ _ => "nothing"

/-- The site to blame if the value is of the wrong kind. -/
def site : Value → Site
  | list _ span | table _ span => .container span
  | value => .scalar value.span

/-- The fault of a value where something else is expected. -/
def misfit (expected : Text) : Value → Fault
  | refused used _ _ => used
  | value => ⟨.wrongKind value.kind expected, value.site⟩

mutual

/-- Pass over a value that is not used. -/
def skip : Value → Except Fault Unit
  | list items _ => skipItems items
  | table entries _ => skipEntries entries
  | refused _ (some fault) _ => .error fault
  | _ => .ok ()

/-- Pass over items. -/
def skipItems : List Value → Except Fault Unit
  | [] => .ok ()
  | item :: rest => do
    skip item
    skipItems rest

/-- Pass over entries. -/
def skipEntries : List Entry → Except Fault Unit
  | [] => .ok ()
  | ⟨_, _, value⟩ :: rest => do
    skip value
    skipEntries rest

end

mutual

/-- Use all of a value; `depth` is the number of lists and tables that may be
nested. -/
def useAll (depth : Nat) : Value → Except Fault Unit
  | list items span =>
    match depth with
    | 0 => .error (.malformed .tooDeep (span.start + 1))
    | left + 1 => useItems left items
  | table entries span =>
    match depth with
    | 0 => .error (.malformed .tooDeep (span.start + 1))
    | left + 1 => useEntries left entries
  | refused used _ _ => .error used
  | _ => .ok ()

/-- Use all items. -/
def useItems (depth : Nat) : List Value → Except Fault Unit
  | [] => .ok ()
  | item :: rest => do
    useAll depth item
    useItems depth rest

/-- Use all keys and values. -/
def useEntries (depth : Nat) : List Entry → Except Fault Unit
  | [] => .ok ()
  | ⟨key, _, value⟩ :: rest => do
    let _ ← key
    useAll depth value
    useEntries depth rest

end

end Value

namespace Entry

/-- Whether a key comes before another one. -/
def keyBefore : Except Fault Text → Except Fault Text → Bool
  | .ok a, .ok b => a < b
  | _, _ => false

/-- Whether two keys are the same. -/
def sameKey : Except Fault Text → Except Fault Text → Bool
  | .ok a, .ok b => a == b
  | _, _ => false

/-- Put an entry into a sorted list, in place of one with the same key. -/
def insert (entry : Entry) : List Entry → List Entry
  | [] => [entry]
  | head :: rest =>
    if sameKey entry.key head.key then entry :: rest
    else if keyBefore entry.key head.key then entry :: head :: rest
    else head :: insert entry rest

end Entry

namespace Value

mutual

/-- The value with sorted keys; of equal keys the last one counts. -/
def sorted : Value → Value
  | list items span => list (sortedItems items) span
  | table entries span => table (sortedEntries [] entries) span
  | value => value

/-- The items, each with sorted keys. -/
def sortedItems : List Value → List Value
  | [] => []
  | item :: rest => sorted item :: sortedItems rest

/-- The entries put into a list that is sorted already. -/
def sortedEntries (before : List Entry) : List Entry → List Entry
  | [] => before
  | ⟨key, afterKey, value⟩ :: rest =>
    sortedEntries (Entry.insert ⟨key, afterKey, sorted value⟩ before) rest

end

end Value

end InterfaceSchema
