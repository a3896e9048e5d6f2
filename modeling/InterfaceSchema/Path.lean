import InterfaceSchema.Text.Blank

/-!
# Paths

A path keeps the way it is spelled, because it is shown that way. Its
components are what it means: repeated slashes, slashes at the end and single
dots other than a leading one do not count. Parts of a path are cut out of
its spelling.
-/

namespace InterfaceSchema

/-- A path as it is spelled. -/
structure Path where
  text : Text
deriving DecidableEq, Repr

/-- A step of a path. -/
inductive Component where
  /-- The root of the file system. -/
  | root
  /-- A leading single dot. -/
  | here
  /-- Two dots. -/
  | up
  | name (name : Text)
deriving DecidableEq, Repr

namespace Component

/-- The spelling of a component. -/
def text : Component → Text
  | .root => "/"
  | .here => "."
  | .up => ".."
  | .name spelled => spelled

end Component

/-- The name without what follows its last dot. A dot at the front ends
nothing, and the name of two dots is not cut. -/
def stemOf (name : Text) : Text :=
  if name = ".." then name
  else
    let stem := (name.reverse.dropWhile (· != '.')).tail.reverse
    if stem.isEmpty then name else stem

/-- What follows the last dot of a name, unless the dot stands at the
front. -/
def extensionOf? (name : Text) : Option Text :=
  if name = ".." then none
  else if (name.reverse.dropWhile (· != '.')).tail.isEmpty then none
  else some (name.reverse.takeWhile (· != '.')).reverse

namespace Path

/-- What a path starts with. -/
inductive Lead where
  | none
  /-- A slash. -/
  | root
  /-- A single dot. -/
  | here
deriving DecidableEq

/-- The spelling of a lead. -/
def Lead.text : Lead → Text
  | none => ""
  | root => "/"
  | here => "."

/-- The component of a lead. -/
def Lead.components : Lead → List Component
  | none => []
  | root => [.root]
  | here => [.here]

/-- The pieces between slashes, empty ones included. -/
def splitSlashes : Text → List Text
  | [] => [[]]
  | c :: rest =>
    if c = '/' then [] :: splitSlashes rest
    else
      match splitSlashes rest with
      | [] => [[c]]
      | piece :: more => (c :: piece) :: more

/-- What a path starts with, and the pieces of the rest. -/
def split (path : Path) : Lead × List Text :=
  match path.text with
  | '/' :: rest => (.root, splitSlashes rest)
  | ['.'] => (.here, [[]])
  | '.' :: '/' :: rest => (.here, [] :: splitSlashes rest)
  | text => (.none, splitSlashes text)

/-- The path with this lead and these pieces. -/
def unsplit (lead : Lead) (pieces : List Text) : Path :=
  ⟨lead.text ++ Text.joinWith "/" pieces⟩

/-- The component that a piece stands for, if it counts. -/
def component? (piece : Text) : Option Component :=
  if piece = "" ∨ piece = "." then none
  else if piece = ".." then some .up
  else some (.name piece)

/-- The components of a path. -/
def components (path : Path) : List Component :=
  let (lead, pieces) := path.split
  lead.components ++ pieces.filterMap component?

/-- Whether the path starts at the root. -/
def isAbsolute (path : Path) : Bool := path.text.head? = some '/'

/-- The pieces without those at the end that do not count. -/
def trimPieces (pieces : List Text) : List Text :=
  (pieces.reverse.dropWhile fun piece => (component? piece).isNone).reverse

/-- The pieces behind the first `count` that count, from the next one that
counts on. -/
def dropPieces (count : Nat) : List Text → List Text
  | [] => []
  | piece :: rest =>
    if (component? piece).isNone then dropPieces count rest
    else
      match count with
      | 0 => piece :: rest
      | left + 1 => dropPieces left rest

/-- The name of the file or directory, if the path ends with one. -/
def fileName? (path : Path) : Option Text :=
  match path.components.getLast? with
  | some (.name name) => some name
  | _ => none

/-- The file name without its extension. -/
def fileStem? (path : Path) : Option Text := path.fileName?.map stemOf

/-- The extension of the file name. -/
def extension? (path : Path) : Option Text := path.fileName?.bind extensionOf?

/-- The path without its last component. A path without components and the
root have no parent. -/
def parent? (path : Path) : Option Path :=
  let (lead, pieces) := path.split
  match trimPieces pieces, lead with
  | [], .here => some ⟨[]⟩
  | [], _ => none
  | kept, _ => some (unsplit lead (trimPieces kept.dropLast))

/-- The path, its parent, the parent of that and so on, at most `count` of
them. -/
def ancestorsUpTo : Nat → Path → List Path
  | 0, _ => []
  | count + 1, path =>
    path :: match path.parent? with
      | some parent => ancestorsUpTo count parent
      | none => []

/-- The path and all paths above it. -/
def ancestors (path : Path) : List Path := ancestorsUpTo (path.text.length + 1) path

/-- The second path seen from the first. An absolute one stays, and an empty
one leaves a slash at the end. -/
def join (base path : Path) : Path :=
  if path.isAbsolute then path
  else if base.text.isEmpty ∨ base.text.getLast? = some '/' then ⟨base.text ++ path.text⟩
  else ⟨base.text ++ ('/' :: path.text)⟩

/-- What is left of a path behind the components of `base`, if it starts with
them. -/
def relativeTo? (path base : Path) : Option Path :=
  let start := base.components
  if start.isPrefixOf path.components then
    let (lead, pieces) := path.split
    if start.isEmpty then some (unsplit lead (trimPieces pieces))
    else some (unsplit .none (trimPieces (dropPieces (start.length - lead.components.length) pieces)))
  else none

/-- The path with the extension of its file name cut off, from the spelling
first and from the name that is left then. -/
def withoutExtension (path : Path) : Path :=
  let text := match path.extension? with
    | some extension => path.text.take (path.text.length - extension.length)
    | none => path.text
  let cut : Path := ⟨text⟩
  match cut.fileName? with
  | none => cut
  | some name =>
    let (lead, pieces) := cut.split
    unsplit lead ((trimPieces pieces).dropLast ++ [stemOf name])

end Path

end InterfaceSchema
