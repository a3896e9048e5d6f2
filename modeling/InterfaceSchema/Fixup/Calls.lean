import InterfaceSchema.Text.Blank
import InterfaceSchema.Text.Letter
import InterfaceSchema.Text.Search

/-!
# Changing calls in code

Calls of one function are found in the text of a program and replaced,
innermost first. The arguments of a call end at the bracket that closes it;
commas and brackets inside strings do not count. A comma after the last
argument is no argument.
-/

namespace InterfaceSchema.Calls

/-- Where a scan of arguments stands. -/
inductive Place where
  /-- Outside of strings, this many brackets deep. -/
  | code (depth : Nat)
  /-- In a string with this closing quote, which stands this many brackets
  deep. -/
  | quoted (quote : Char) (depth : Nat)
  /-- Right after a backslash in such a string. -/
  | escaped (quote : Char) (depth : Nat)
deriving DecidableEq, Repr

/-- Where the scan stands after one character that neither ends the arguments
nor separates two of them. -/
def Place.next (place : Place) (c : Char) : Place :=
  match place with
  | .escaped quote depth => .quoted quote depth
  | .quoted quote depth =>
    if c = quote then .code depth else if c = '\\' then .escaped quote depth else place
  | .code depth =>
    if c = '\'' ∨ c = '"' ∨ c = '`' then .quoted c depth
    else if c = '(' ∨ c = '[' ∨ c = '\x7b' then .code (depth + 1)
    else if c = ')' ∨ c = ']' ∨ c = '\x7d' then .code (depth - 1)
    else place

/-- The pieces between commas up to the bracket that closes a call, and what
follows the bracket. -/
def pieces (place : Place) : Text → Option (List Text × Text)
  | [] => none
  | c :: rest =>
    if place = .code 0 ∧ c = ')' then some ([[]], rest)
    else if place = .code 0 ∧ c = ',' then
      (pieces (.code 0) rest).map fun found => ([] :: found.1, found.2)
    else
      (pieces (place.next c) rest).map fun found =>
        match found.1 with
        | [] => ([[c]], found.2)
        | piece :: more => ((c :: piece) :: more, found.2)

/-- The arguments that pieces stand for: without blanks around them, and
without an empty last one. -/
def argumentsOf (pieces : List Text) : List Text :=
  let trimmed := pieces.map Text.trim
  if trimmed.getLast? = some [] then trimmed.dropLast else trimmed

/-- The arguments of a call from behind its opening bracket on, and what
follows its closing bracket. -/
def splitArguments (text : Text) : Option (List Text × Text) :=
  (pieces (.code 0) text).map fun found => (argumentsOf found.1, found.2)

/-- Whether a name can start after this character: it is not the tail of a
longer name or of a chain of members. -/
def startsName : Option Char → Bool
  | none => true
  | some c => !(Text.isAlphanumeric c || c == '_' || c == '$' || c == '.')

/-- The pieces of the arguments and the text after the call, if a call stands
right behind the name of the function and the name starts there. -/
def openCall? (before : Option Char) (after : Text) : Option (List Text × Text) :=
  match after with
  | '(' :: inside => if startsName before then pieces (.code 0) inside else none
  | _ => none

/-- Replace the calls of `callee`. `change` gives the new call for the
changed arguments, or leaves the call alone; `before` is the character
before the text. The number bounds the recursion. -/
def replaceFrom (callee : Text) (change : List Text → Option Text) :
    Nat → Option Char → Text → Text
  | 0, _, text => text
  | _, _, [] => []
  | depth + 1, before, c :: rest =>
    if callee.isPrefixOf (c :: rest) then
      let after := (c :: rest).drop callee.length
      match openCall? before after with
      | some (found, more) =>
        let arguments := (argumentsOf found).map (replaceFrom callee change depth none)
        let call :=
          match change arguments with
          | some call => call
          | none =>
            let inside := replaceFrom callee change depth none (Text.joinWith "," found)
            callee ++ ('(' :: (inside ++ ")"))
        call ++ replaceFrom callee change depth (some ')') more
      | none => callee ++ replaceFrom callee change depth callee.getLast? after
    else c :: replaceFrom callee change depth (some c) rest

/-- The text with all calls of `callee` replaced. -/
def replaceCalls (callee : Text) (change : List Text → Option Text) (text : Text) : Text :=
  replaceFrom callee change (text.length + 1) none text

end InterfaceSchema.Calls
