import InterfaceSchema.Layout
import InterfaceSchema.Naming
import InterfaceSchema.Syntax.Source

/-!
# Flattening

Object types written in place as the type of an interface's property are
moved into interfaces of their own, right before the interface they come
from, and the property refers to them by name. Extracted interfaces are
flattened in turn, in the order in which they were made. All text outside of
the changed property types stays as it is.
-/

namespace InterfaceSchema

namespace Flatten

/-- A place in the flattened file. -/
inductive Slot where
  /-- Text taken over from the source. -/
  | text (span : Span)
  /-- The interface with this number. -/
  | interface (index : Nat)
deriving DecidableEq, Repr

/-- An interface of the flattened file. -/
structure Draft where
  name : Text
  /-- Its declaration, if the source holds one. -/
  origin : Option Span
  properties : List Property
  /-- Types replaced by the name of an extracted interface. -/
  renamed : List (Span × Text)

/-- The file while it is flattened. -/
structure State where
  /-- All interfaces, numbered in the order in which they were made. -/
  drafts : List Draft
  /-- The file from top to bottom. -/
  layout : List Slot
  /-- Names that are taken. -/
  declared : List Text

/-- An interface cannot be extracted because its name is taken. -/
structure NameCollision where
  /-- The taken name. -/
  name : Text
  /-- The name of the property that was to be extracted. -/
  span : Span
deriving DecidableEq, Repr

/-- The draft of a declared interface. -/
def Draft.ofDecl (decl : InterfaceDecl) : Draft :=
  ⟨decl.name, some decl.span, propertiesOf decl.members, []⟩

/-- The interfaces from number `index` on, with the text from `cursor` on
between them and up to `stop`. -/
def layoutFrom (stop cursor index : Nat) : List InterfaceDecl → List Slot
  | [] => if cursor < stop then [.text ⟨cursor, stop⟩] else []
  | decl :: rest =>
    let slots := .interface index :: layoutFrom stop decl.span.stop (index + 1) rest
    if cursor < decl.span.start then .text ⟨cursor, decl.span.start⟩ :: slots else slots

/-- The state before anything is extracted. -/
def State.ofFile (file : SourceFile) : State :=
  { drafts := file.interfaces.map Draft.ofDecl
    layout := layoutFrom (Text.byteLength file.text) 0 0 file.interfaces
    declared := file.declaredNames }

/-- A property whose type is an object type written in place. -/
structure Inline where
  head : PropertyHead
  type : TypeExpr
  members : List Member

/-- The property as one with an object type in place, if it is one. -/
def Inline.ofProperty? (property : Property) : Option Inline := do
  let type ← property.type
  let members ← type.members?
  some ⟨property.head, type, members⟩

/-- The properties with object types in place, in order. -/
def inlines (properties : List Property) : List Inline := properties.filterMap Inline.ofProperty?

/-- Put a slot right before the first one that is equal to `anchor`, or at
the end if there is none. -/
def insertBefore (anchor slot : Slot) : List Slot → List Slot
  | [] => [slot]
  | head :: rest =>
    if head = anchor then slot :: head :: rest else head :: insertBefore anchor slot rest

/-- Move an object type out of the interface with number `parent`. -/
def State.extract (state : State) (parent : Nat) (parentName : Text) (inline : Inline) :
    Except NameCollision State :=
  let name := Naming.extracted parentName inline.head.key
  if state.declared.contains name then .error ⟨name, inline.head.nameSpan⟩
  else
    let index := state.drafts.length
    let rename (draft : Draft) : Draft :=
      { draft with renamed := draft.renamed ++ [(inline.type.span, name)] }
    .ok
      { drafts := state.drafts.modify parent rename ++
          [⟨name, none, propertiesOf inline.members, []⟩]
        layout := insertBefore (.interface parent) (.interface index) state.layout
        declared := name :: state.declared }

/-- Move all object types out of the interface with number `parent`. -/
def State.extractAll (state : State) (parent : Nat) (parentName : Text) :
    List Inline → Except NameCollision State
  | [] => .ok state
  | inline :: rest => do
    let state ← state.extract parent parentName inline
    state.extractAll parent parentName rest

/-- Flatten the interfaces from number `index` on, at most `count` of
them. -/
def State.flattenFrom (state : State) (index : Nat) : Nat → Except NameCollision State
  | 0 => .ok state
  | count + 1 =>
    match state.drafts[index]? with
    | none => .ok state
    | some draft => do
      let state ← state.extractAll index draft.name (inlines draft.properties)
      state.flattenFrom (index + 1) count

mutual

/-- How many interfaces come out of a type that is moved out. -/
def typeWeight : TypeExpr → Nat
  | .object members _ => 1 + membersWeight members
  | _ => 0

/-- How many interfaces come out of a list of members. -/
def membersWeight : List Member → Nat
  | [] => 0
  | member :: rest => memberWeight member + membersWeight rest

/-- How many interfaces come out of a member. -/
def memberWeight : Member → Nat
  | .property ⟨_, some type⟩ => typeWeight type
  | _ => 0

end

/-- How many interfaces the flattened file has. -/
def totalWeight (file : SourceFile) : Nat :=
  file.interfaces.foldr (fun decl count => 1 + membersWeight decl.members + count) 0

/-- The lines of a documentation comment at its new place: continuation lines
that start with a star stand one column further right. -/
def docLines (doc : Text) : List Text :=
  match (Text.lines doc).map Text.trim with
  | [] => []
  | first :: rest =>
    first :: rest.map fun line => if line.head? = some '*' then ' ' :: line else line

/-- The line that declares a property of an extracted interface. -/
def propertyLine (source : Text) (renamed : List (Span × Text)) (property : Property) : Text :=
  let modifier : Text := if property.head.readonly then "readonly " else ""
  let mark : Text := if property.head.optional then "?" else ""
  let type : Text := match property.type with
    | none => ""
    | some type => ": " ++ (renamed.lookup type.span).getD (type.span.slice source)
  modifier ++ (property.head.name ++ (mark ++ (type ++ ";")))

/-- The documentation and declaration of a property of an extracted
interface. -/
def propertyLines (source : Text) (renamed : List (Span × Text)) (property : Property) :
    List Text :=
  (match property.head.docs with
    | some span => docLines (span.slice source)
    | none => []) ++ [propertyLine source renamed property]

/-- An extracted interface, with an empty line after it. -/
def renderExtracted (source : Text) (draft : Draft) : Text :=
  let opening : Text := "export interface " ++ (draft.name ++ " \x7b")
  let writer := Writer.new .extracted
  let written :=
    if draft.properties.isEmpty then writer.line (opening ++ "\x7d")
    else writer.within opening "\x7d" fun writer =>
      writer.allLines (draft.properties.flatMap (propertyLines source draft.renamed))
  written.text ++ "\n"

/-- The source from `cursor` to `stop` with the given parts replaced. -/
def replaceParts (source : Text) (cursor stop : Nat) : List (Span × Text) → Text
  | [] => Span.slice ⟨cursor, stop⟩ source
  | (span, text) :: rest =>
    Span.slice ⟨cursor, span.start⟩ source ++ (text ++ replaceParts source span.stop stop rest)

/-- The text of an interface in the flattened file. -/
def renderDraft (source : Text) (draft : Draft) : Text :=
  match draft.origin with
  | some span => replaceParts source span.start span.stop draft.renamed
  | none => renderExtracted source draft

/-- The text of a place in the flattened file. -/
def renderSlot (source : Text) (drafts : List Draft) : Slot → Text
  | .text span => span.slice source
  | .interface index => (drafts[index]?.map (renderDraft source)).getD []

/-- The text of the flattened file. -/
def State.render (state : State) (source : Text) : Text :=
  state.layout.flatMap (renderSlot source state.drafts)

/-- Why a source cannot be flattened. -/
inductive Refusal where
  /-- It is not well formed. -/
  | malformed
  | collision (collision : NameCollision)
deriving DecidableEq, Repr

end Flatten

/-- The flattened file. -/
def SourceFile.flatten (file : SourceFile) : Except Flatten.NameCollision Text := do
  let state ← (Flatten.State.ofFile file).flattenFrom 0 (Flatten.totalWeight file)
  .ok (state.render file.text)

/-- The flattened source. -/
def flatten (source : Text) : Except Flatten.Refusal Text :=
  match SourceFile.read source with
  | none => .error .malformed
  | some file =>
    match file.flatten with
    | .ok text => .ok text
    | .error collision => .error (.collision collision)

/-- A result is known by its value. -/
theorem eq_ok_of_toOption {ε α : Type} {result : Except ε α} {value : α}
    (h : result.toOption = some value) : result = .ok value := by
  cases result with
  | ok found => exact congrArg Except.ok (Option.some.inj h)
  | error fault => cases h

end InterfaceSchema
