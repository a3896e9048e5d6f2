import InterfaceSchema.Toml.Quoted
import InterfaceSchema.Toml.Table
import InterfaceSchema.Toml.Word

/-!
# TOML documents

A document consists of lines with keys and values, and of headers that say
which table the following lines belong to. Keys of a table that was read are
sorted.
-/

namespace InterfaceSchema.Toml

/-- The next place that is not blank. -/
def skipBlanks (cursor : Cursor) : Cursor := cursor.dropWhile isBlank

/-- The place after a comment, if one stands here. -/
def skipComment (cursor : Cursor) : Cursor :=
  if cursor.rest.head? = some '#' then cursor.dropWhile fun c => !isForbidden c else cursor

/-- The place after the end of a line, which may hold a comment. -/
def afterLine? (cursor : Cursor) : Option Cursor :=
  let here := skipComment (skipBlanks cursor)
  if here.rest.isEmpty then some here else afterLineBreak? here

/-- The next place that is neither blank nor in a comment, over any number of
lines; at most `count` of them. -/
def skipLines : Nat → Cursor → Cursor
  | 0, cursor => cursor
  | count + 1, cursor =>
    let here := skipComment (skipBlanks cursor)
    match afterLineBreak? here with
    | some next => skipLines count next
    | none => here

/-- Characters of keys without quotes. -/
def isKeyChar (c : Char) : Bool := c.isAlphanum || c == '_' || c == '-'

/-- Read a part of a key. -/
def readPart (start : Cursor) : Option (Key × Cursor) := do
  let (text, after) ← match start.rest.head? with
    | some '"' => readLine .double start
    | some '\'' => readLine .single start
    | _ =>
      let text := start.taken isKeyChar
      if text.isEmpty then none else some (text, start.dropWhile isKeyChar)
  some (⟨text, after.spanFrom start⟩, after)

/-- Read at most so many parts of a key: those before the last one and the last
one. -/
def readParts : Nat → Cursor → Option ((List Key × Key) × Cursor)
  | 0, _ => none
  | count + 1, start => do
    let (part, after) ← readPart start
    match (skipBlanks after).after? ['.'] with
    | none => some (([], part), after)
    | some next => do
      let ((path, last), after) ← readParts count (skipBlanks next)
      some ((part :: path, last), after)

/-- How deep lists and tables may be nested as values, and how many parts a key
may have. -/
def greatestDepth : Nat := 80

/-- Read a key. -/
def readKey (start : Cursor) : Option ((List Key × Key) × Cursor) := readParts greatestDepth start

/-- The word that starts here. A blank may stand between a date and a
time. -/
def readWord (start : Cursor) : Text × Cursor :=
  let word := start.taken isWordChar
  let after := start.dropWhile isWordChar
  match afterDate? word, after.rest with
  | some [], ' ' :: c :: _ =>
    if c.isDigit then (word ++ (' ' :: after.next.taken isWordChar), after.next.dropWhile isWordChar)
    else (word, after)
  | _, _ => (word, after)

mutual

/-- Read the value that starts here. The first number bounds the recursion,
the second one how deep values may still be nested. -/
def readValue : Nat → Nat → Cursor → Option (Value × Cursor)
  | 0, _, _ => none
  | count + 1, depth, start =>
    match start.rest.head? with
    | none => none
    | some '"' => (readQuoted .double start).map fun (text, after) => (.text text (after.spanFrom start), after)
    | some '\'' => (readQuoted .single start).map fun (text, after) => (.text text (after.spanFrom start), after)
    | some '[' =>
      match depth with
      | 0 => none
      | depth + 1 => do
        let (items, after) ← readItems count depth start.next
        some (.list items (after.spanFrom start), after)
    | some '\x7b' =>
      match depth with
      | 0 => none
      | depth + 1 => do
        let (table, after) ← readPairs count depth ⟨.opened, start.spanFrom start, []⟩ start.next
        some (Table.toValue { table with span := after.spanFrom start }, after)
    | some _ =>
      let (word, after) := readWord start
      (wordValue? word (after.spanFrom start)).map fun value => (value, after)

/-- Read items up to the closing bracket. -/
def readItems : Nat → Nat → Cursor → Option (List Value × Cursor)
  | 0, _, _ => none
  | count + 1, depth, start =>
    let here := skipLines start.rest.length start
    if here.rest.head? = some ']' then some ([], here.next)
    else do
      let (item, after) ← readValue count depth here
      let next := skipLines after.rest.length after
      match next.rest.head? with
      | some ']' => some ([item], next.next)
      | some ',' => do
        let (items, after) ← readItems count depth next.next
        some (item :: items, after)
      | _ => none

/-- Read keys and values up to the closing brace into a table. -/
def readPairs : Nat → Nat → Table → Cursor → Option (Table × Cursor)
  | 0, _, _, _ => none
  | count + 1, depth, table, start =>
    let here := skipLines start.rest.length start
    if here.rest.head? = some '\x7d' then some (table, here.next)
    else do
      let ((path, key), after) ← readKey here
      let equals ← (skipLines after.rest.length after).after? ['=']
      let (value, after) ← readValue count depth (skipLines equals.rest.length equals)
      let table ← table.putAt path key value
      let next := skipLines after.rest.length after
      match next.rest.head? with
      | some '\x7d' => some (table, next.next)
      | some ',' => readPairs count depth table next.next
      | _ => none

end

/-- A document while it is read. -/
structure DocumentState where
  root : Table
  /-- The table that the following lines belong to. -/
  path : List Key

namespace DocumentState

/-- Read a header, which starts with a bracket. -/
def readHeader (state : DocumentState) (start : Cursor) : Option (DocumentState × Cursor) :=
  match start.after? "[[" with
  | some inside => do
    let ((path, key), after) ← readKey (skipBlanks inside)
    let after ← (skipBlanks after).after? "]]"
    let root ← state.root.openNextAt path key (after.spanFrom start)
    some (⟨root, path ++ [key]⟩, after)
  | none => do
    let ((path, key), after) ← readKey (skipBlanks start.next)
    let after ← (skipBlanks after).after? "]"
    let root ← state.root.openAt path key (after.spanFrom start)
    some (⟨root, path ++ [key]⟩, after)

/-- Read a key and its value. -/
def readPair (state : DocumentState) (start : Cursor) : Option (DocumentState × Cursor) := do
  let ((path, key), after) ← readKey start
  let equals ← (skipBlanks after).after? ['=']
  let (value, after) ← readValue (start.rest.length + 1) greatestDepth (skipBlanks equals)
  let root ← state.root.enter .passing (Table.putAt path key value) state.path
  some (⟨root, state.path⟩, after)

/-- Read on to the end of the document, at most `count` lines. -/
def readLines (state : DocumentState) (cursor : Cursor) : Nat → Option DocumentState
  | 0 => none
  | count + 1 =>
    let here := skipLines cursor.rest.length cursor
    match here.rest.head? with
    | none => some state
    | some c => do
      let (state, after) ← if c = '[' then state.readHeader here else state.readPair here
      let next ← afterLine? after
      state.readLines next count

end DocumentState

/-- The root table of a document, if the document is well formed. A byte order
mark at its start does not count. -/
def read? (text : Text) : Option Value := do
  let start := Cursor.start text
  let start := if text.head? = some '\ufeff' then start.next else start
  let state ← DocumentState.readLines ⟨⟨.opened, ⟨0, Text.byteLength text⟩, []⟩, []⟩ start (text.length + 1)
  some (Table.toValue state.root)

end InterfaceSchema.Toml
