import InterfaceSchema.Json.Number
import InterfaceSchema.Json.Quoted

/-!
# JSON documents

A document is one value with blanks around it. If the text is malformed, the
value holds what stands before the fault.
-/

namespace InterfaceSchema.Json

/-- Blanks between the tokens of a document. -/
def isBlank (c : Char) : Bool := c == ' ' || c == '\n' || c == '\t' || c == '\r'

/-- The next place that is not blank. -/
def skipBlanks (cursor : Cursor) : Cursor := cursor.dropWhile isBlank

/-- What was read, and where to go on, if that is possible. -/
abbrev Reading (α : Type) := α × Option Cursor

/-- Reading of what started at an earlier place stops here. -/
def stopFrom (start cursor : Cursor) (used skipped : Malformed) : Value :=
  .refused (.malformed used cursor.peeked) (some (.malformed skipped cursor.peeked))
    (cursor.spanFrom start)

/-- Reading stops here. -/
def stop (cursor : Cursor) (used skipped : Malformed) : Value := stopFrom cursor cursor used skipped

/-- Read the rest of a word that stands for `value`. -/
def readWord (start : Cursor) (value : Span → Value) : Text → Cursor → Reading Value
  | [], cursor => (value (cursor.spanFrom start), some cursor)
  | c :: more, cursor =>
    match cursor.rest with
    | [] => (stopFrom start cursor .endInValue .endInValue, none)
    | d :: _ =>
      if c = d then readWord start value more cursor.next
      else (stopFrom start cursor .expectedWord .expectedWord, none)

/-- Read a number. -/
def readNumber (start : Cursor) : Reading Value :=
  match readParts start with
  | .ok (parts, after) => (parts.value (after.spanFrom start), some after)
  | .error fault => (.refused fault.used (some fault.skipped) (start.spanFrom start), none)

/-- Read a string. -/
def readString (start : Cursor) : Reading Value :=
  match readQuoted start.next with
  | .closed (.ok value) after => (.text value (after.spanFrom start), some after)
  | .closed (.error fault) after => (.refused fault none (after.spanFrom start), some after)
  | .broken used skipped => (.refused used (some skipped) (start.spanFrom start), none)

/-- An entry without a key, where reading stops. -/
def stopEntry (cursor : Cursor) (used skipped : Malformed) : Reading (List Entry) :=
  ([⟨.error (.malformed used cursor.peeked), cursor.position, stop cursor used skipped⟩], none)

/-- The position behind a key, the blanks after it and a closing brace. -/
def positionAfterKey (cursor : Cursor) : Nat :=
  if cursor.rest.head? = some '\x7d' then cursor.position + 1 else cursor.position

mutual

/-- Read the value that starts here. The number bounds the recursion. -/
def readValue : Nat → Cursor → Reading Value
  | 0, start => (stop start .tooDeep .tooDeep, none)
  | count + 1, start =>
    match start.rest with
    | [] => (stop start .endInValue .endInValue, none)
    | c :: _ =>
      match c with
      | '"' => readString start
      | 't' => readWord start (.flag true) "true" start
      | 'f' => readWord start (.flag false) "false" start
      | 'n' => readWord start .null "null" start
      | '[' =>
        let (items, after) := readItems count true start.next
        (.list items ((after.getD start).spanFrom start), after)
      | '\x7b' =>
        let (entries, after) := readEntries count true start.next
        (.table entries ((after.getD start).spanFrom start), after)
      | c =>
        if c = '-' ∨ c.isDigit then readNumber start
        else (stop start .expectedValue .expectedValue, none)

/-- Read one item and those after it. -/
def readItem : Nat → Cursor → Reading (List Value)
  | 0, start => ([stop start .tooDeep .tooDeep], none)
  | count + 1, start =>
    match readValue count start with
    | (item, none) => ([item], none)
    | (item, some after) =>
      let (items, after) := readItems count false after
      (item :: items, after)

/-- Read items up to the closing bracket. -/
def readItems : Nat → Bool → Cursor → Reading (List Value)
  | 0, _, start => ([stop start .tooDeep .tooDeep], none)
  | count + 1, isFirst, start =>
    let here := skipBlanks start
    match here.rest with
    | [] => ([stop here .endInList .endInList], none)
    | ']' :: _ => ([], some here.next)
    | c :: _ =>
      if isFirst then readItem count here
      else if c = ',' then
        let next := skipBlanks here.next
        match next.rest with
        | [] => ([stop next .endInValue .endInValue], none)
        | ']' :: _ => ([stop next .trailingComma .expectedValue], none)
        | _ => readItem count next
      else ([stop here .expectedListComma .expectedListComma], none)

/-- Read one entry, which starts with a quote, and those after it. -/
def readEntry : Nat → Cursor → Reading (List Entry)
  | 0, start => stopEntry start .tooDeep .tooDeep
  | count + 1, start =>
    match readQuoted start.next with
    | .broken used skipped =>
      ([⟨.error used, start.position, .refused used (some skipped) (start.spanFrom start)⟩], none)
    | .closed key after =>
      let here := skipBlanks after
      let entry (value : Value) : Entry := ⟨key, positionAfterKey here, value⟩
      match here.rest with
      | [] => ([entry (stop here .endInObject .endInObject)], none)
      | ':' :: _ =>
        match readValue count (skipBlanks here.next) with
        | (value, none) => ([entry value], none)
        | (value, some after) =>
          let (entries, after) := readEntries count false after
          (entry value :: entries, after)
      | _ => ([entry (stop here .expectedColon .expectedColon)], none)

/-- Read entries up to the closing brace. -/
def readEntries : Nat → Bool → Cursor → Reading (List Entry)
  | 0, _, start => stopEntry start .tooDeep .tooDeep
  | count + 1, isFirst, start =>
    let here := skipBlanks start
    match here.rest with
    | [] => stopEntry here .endInObject .endInObject
    | '\x7d' :: _ => ([], some here.next)
    | '"' :: _ =>
      if isFirst then readEntry count here
      else stopEntry here .expectedObjectComma .expectedObjectComma
    | c :: _ =>
      if isFirst then stopEntry here .keyNotString .keyNotString
      else if c = ',' then
        let next := skipBlanks here.next
        match next.rest with
        | [] => stopEntry next .endInValue .endInObject
        | '"' :: _ => readEntry count next
        | '\x7d' :: _ => stopEntry next .trailingComma .keyNotString
        | _ => stopEntry next .keyNotString .keyNotString
      else stopEntry here .expectedObjectComma .expectedObjectComma

end

/-- A document: its value, and what follows it although nothing should. -/
structure Document where
  root : Value
  trailing : Option Fault

/-- Read a document. -/
def Document.read (text : Text) : Document :=
  let (root, after) := readValue (4 * text.length + 4) (skipBlanks (Cursor.start text))
  match after with
  | none => ⟨root, none⟩
  | some cursor =>
    let here := skipBlanks cursor
    ⟨root, if here.rest.isEmpty then none else some (.malformed .trailingCharacters here.peeked)⟩

/-- A JSON string. Quotes, backslashes and control characters are escaped. -/
def quoteChar (c : Char) : Text :=
  match c with
  | '"' => "\\\""
  | '\\' => "\\\\"
  | '\n' => "\\n"
  | '\r' => "\\r"
  | '\t' => "\\t"
  | '\x08' => "\\b"
  | '\x0c' => "\\f"
  | c =>
    if c.toNat < 32 then "\\u" ++ (List.replicate (4 - (Nat.toDigits 16 c.toNat).length) '0' ++
      Nat.toDigits 16 c.toNat)
    else [c]

/-- The text as a JSON string. -/
def quote (text : Text) : Text := '"' :: (text.flatMap quoteChar ++ ['"'])

end InterfaceSchema.Json
