import InterfaceSchema.Data.Value

/-!
# TOML tables

Tables grow while a document is read. A header opens a table once, and the
tables above it come into being on the way; so do tables named by the parts of
a dotted key. A table that a header has opened cannot be reached by a dotted
key, and one made by a dotted key cannot be opened by a header. Of a list of
tables the last one grows.
-/

namespace InterfaceSchema.Toml

/-- A part of a key. -/
structure Key where
  text : Text
  span : Span
deriving DecidableEq, Repr

/-- How a table came into being. -/
inductive TableKind where
  /-- On the way to a table with a header. -/
  | passing
  /-- By a dotted key. -/
  | dotted
  /-- By its header, or as a value. -/
  | opened
deriving DecidableEq, Repr

mutual

/-- What a key stands for. -/
inductive Slot where
  | value (value : Value)
  | table (table : Table)
  /-- A list of tables, the last of which grows. -/
  | tables (before : List Table) (last : Table)

/-- A table that grows. -/
structure Table where
  kind : TableKind
  span : Span
  entries : List (Text × Slot)

end

/-- Change what a key stands for, which is nothing if the key is new. -/
def updateEntry (key : Text) (change : Option Slot → Option Slot) :
    List (Text × Slot) → Option (List (Text × Slot))
  | [] => (change none).map fun slot => [(key, slot)]
  | (name, slot) :: rest =>
    if name = key then (change (some slot)).map fun slot => (name, slot) :: rest
    else (updateEntry key change rest).map ((name, slot) :: ·)

namespace Table

/-- Change the entry of a key. -/
def update (table : Table) (key : Text) (change : Option Slot → Option Slot) : Option Table :=
  (updateEntry key change table.entries).map fun entries => { table with entries := entries }

/-- Change the table at the end of a path. Tables that are not there yet are
of kind `made`. -/
def enter (made : TableKind) (change : Table → Option Table) : List Key → Table → Option Table
  | [], table => change table
  | key :: path, table =>
    table.update key.text fun
      | none => (enter made change path ⟨made, key.span, []⟩).map .table
      | some (.value _) => none
      | some (.table child) =>
        if made = .dotted ∧ child.kind = .opened then none
        else (enter made change path child).map .table
      | some (.tables before last) => (enter made change path last).map (.tables before)

/-- Give a value to a key that has none. -/
def put (key : Key) (value : Value) (table : Table) : Option Table :=
  table.update key.text fun
    | none => some (.value value)
    | some _ => none

/-- Give a value to a dotted key. -/
def putAt (path : List Key) (key : Key) (value : Value) (table : Table) : Option Table :=
  enter .dotted (fun parent =>
    if (parent.kind = .dotted) = (path ≠ []) then parent.put key value else none) path table

/-- Open the table with a header at `span`. -/
def openAt (path : List Key) (key : Key) (span : Span) (table : Table) : Option Table :=
  enter .passing (fun parent => parent.update key.text fun
    | none => some (.table ⟨.opened, span, []⟩)
    | some (.table child) =>
      if child.kind = .passing then some (.table ⟨.opened, span, child.entries⟩) else none
    | some _ => none) path table

/-- Open a further table of a list, with a header at `span`. -/
def openNextAt (path : List Key) (key : Key) (span : Span) (table : Table) : Option Table :=
  enter .passing (fun parent => parent.update key.text fun
    | none => some (.tables [] ⟨.opened, span, []⟩)
    | some (.tables before last) => some (.tables (before ++ [last]) ⟨.opened, span, []⟩)
    | some _ => none) path table

end Table

/-- An entry of a finished table. -/
def entryOf (key : Text) (value : Value) : Entry := ⟨.ok key, value.span.start, value⟩

mutual

/-- A finished slot. -/
def Slot.toValue : Slot → Value
  | .value value => value
  | .table table => Table.toValue table
  | .tables before last =>
    let items := tablesToValues before ++ [Table.toValue last]
    .list items ((items.head?.map Value.span).getD last.span)

/-- A finished table. -/
def Table.toValue : Table → Value
  | ⟨_, span, entries⟩ => .table (slotsToEntries [] entries) span

/-- Finished tables. -/
def tablesToValues : List Table → List Value
  | [] => []
  | table :: rest => Table.toValue table :: tablesToValues rest

/-- Finished entries, put into a list that is sorted by keys. -/
def slotsToEntries (before : List Entry) : List (Text × Slot) → List Entry
  | [] => before
  | (key, slot) :: rest =>
    slotsToEntries (Entry.insert (entryOf key (Slot.toValue slot)) before) rest

end

end InterfaceSchema.Toml
