import InterfaceSchema.Layout
import InterfaceSchema.Naming

/-!
# Barrels

A barrel is a file that exports names again. The constants, types and
interfaces that a schema file exports go to two barrels: the index, which
holds what the source declares itself, and the details, which hold what was
extracted from properties.
-/

namespace InterfaceSchema

namespace Barrel

/-- Characters of exported names. -/
def isNameChar (c : Char) : Bool := c.isAlphanum || c == '_'

/-- What kind of thing is exported. -/
def exportWords : List Text := ["const".toList, "type".toList, "interface".toList]

/-- What follows one or more blanks. -/
def afterBlanks? (text : Text) : Option Text :=
  match text with
  | [] => none
  | c :: rest => if Text.isBlank c then some (rest.dropWhile Text.isBlank) else none

/-- What follows one of the words. -/
def afterWord? (words : List Text) (text : Text) : Option Text :=
  (words.find? fun word => word.isPrefixOf text).map fun word => text.drop word.length

/-- The name of the export that starts right here, and what follows the sign
that opens its definition. -/
def exportAt? (text : Text) : Option (Text × Text) := do
  let rest ← afterWord? ["export".toList] text
  let rest ← afterBlanks? rest
  let rest ← afterWord? exportWords rest
  let rest ← afterBlanks? rest
  let name := rest.takeWhile isNameChar
  match name, (rest.dropWhile isNameChar).dropWhile Text.isBlank with
  | _ :: _, sign :: more => if sign = '=' ∨ sign = '\x7b' then some (name, more) else none
  | _, _ => none

/-- The names of all exports, one after another. The number bounds the
recursion. -/
def exportsFrom : Nat → Text → List Text
  | 0, _ => []
  | _, [] => []
  | count + 1, c :: rest =>
    match exportAt? (c :: rest) with
    | some (name, more) => name :: exportsFrom count more
    | none => exportsFrom count rest

/-- The list without later repetitions. -/
def distinct (names : List Text) : List Text :=
  names.foldl (fun found name => if found.contains name then found else found ++ [name]) []

/-- The names a file exports, in order of first appearance. -/
def exports (content : Text) : List Text := distinct (exportsFrom content.length content)

/-- The comment at the top of every barrel. -/
def header : Text := "// THIS FILE IS AUTO-GENERATED. DO NOT EDIT."

/-- The text of a barrel that exports the names again. -/
def render (names : List Text) (specifier : Text) : Text :=
  let writer := ((Writer.new .barrel).line header).blank
  (writer.within "export \x7b" ("\x7d from \"" ++ specifier ++ "\";") fun writer =>
    writer.allLines (names.map fun name => name ++ ",")).blank.text

end Barrel

/-- The two barrels of a schema file. -/
inductive BarrelKind where
  /-- Names declared in the source. -/
  | index
  /-- Names made by extraction. -/
  | details
deriving DecidableEq, Repr

namespace BarrelKind

/-- Both kinds, in the order in which they are written. -/
def all : List BarrelKind := [.index, .details]

/-- The name of the barrel's file. -/
def fileName : BarrelKind → Text
  | index => "index.ts"
  | details => "details.ts"

/-- Whether a name belongs into the barrel. -/
def includes (kind : BarrelKind) (name : Text) : Bool :=
  match kind with
  | index => Naming.isPrimary name
  | details => Naming.isExtracted name

/-- The names that belong into the barrel. -/
def select (kind : BarrelKind) (names : List Text) : List Text := names.filter kind.includes

end BarrelKind

end InterfaceSchema
