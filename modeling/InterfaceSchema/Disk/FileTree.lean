import InterfaceSchema.Disk.Basic

/-!
# File trees

A file tree is a disk that is a plain value. It has no links: every file and
directory has one place, the list of names that lead to it from the root. A
path is followed name by name from the root or from the current directory.
-/

namespace InterfaceSchema

/-- The names that lead to a file or directory from the root. -/
abbrev Place := List Text

/-- What a file holds. -/
inductive Content where
  | text (text : Text)
  /-- Bytes that are not the UTF-8 form of a text. -/
  | bytes (bytes : List UInt8)
deriving DecidableEq, Repr

/-- What stands at a place. -/
inductive Node where
  | directory
  | file (content : Content)
deriving DecidableEq, Repr

/-- Files and directories. -/
structure FileTree where
  /-- What stands at which place, sorted by places. The root is not listed. -/
  nodes : List (Place × Node)
  /-- The directory that relative paths start from. -/
  current : Place
deriving DecidableEq, Repr

/-- What a path leads to. -/
inductive Spot where
  | taken (place : Place) (node : Node)
  /-- A missing entry of a directory. -/
  | vacant (place : Place)
deriving DecidableEq, Repr

namespace FileTree

/-- Whether a place comes before another one. -/
def before : Place → Place → Bool
  | [], [] => false
  | [], _ :: _ => true
  | _ :: _, [] => false
  | a :: as, b :: bs => if a = b then before as bs else a < b

/-- Put a node into a sorted list, in place of what stands there. -/
def insertNode (place : Place) (node : Node) : List (Place × Node) → List (Place × Node)
  | [] => [(place, node)]
  | head :: rest =>
    if head.1 = place then (place, node) :: rest
    else if before place head.1 then (place, node) :: head :: rest
    else head :: insertNode place node rest

/-- What stands at a place. -/
def node? (tree : FileTree) (place : Place) : Option Node :=
  if place = [] then some .directory else tree.nodes.lookup place

/-- The tree with a node at a place. -/
def put (tree : FileTree) (place : Place) (node : Node) : FileTree :=
  { tree with nodes := insertNode place node tree.nodes }

/-- The tree without a place and all below it. -/
def remove (tree : FileTree) (place : Place) : FileTree :=
  { tree with nodes := tree.nodes.filter fun entry => !place.isPrefixOf entry.1 }

/-- The names of a path. -/
def names (path : Path) : List Text := (Path.splitSlashes path.text).filter fun name => !name.isEmpty

/-- Whether a path asks for a directory by a slash at its end. -/
def wantsDirectory (path : Path) : Bool := path.text.getLast? = some '/'

/-- Where a list of names leads from a directory. -/
def walk (tree : FileTree) (here : Place) : List Text → Except DiskError Spot
  | [] => .ok (.taken here .directory)
  | name :: rest =>
    if name = "." then walk tree here rest
    else if name = ".." then walk tree here.dropLast rest
    else
      match tree.node? (here ++ [name]) with
      | some .directory => walk tree (here ++ [name]) rest
      | some (.file content) =>
        if rest.isEmpty then .ok (.taken (here ++ [name]) (.file content)) else .error .notDirectory
      | none => if rest.isEmpty then .ok (.vacant (here ++ [name])) else .error .notFound

/-- The directory that a path starts from. -/
def origin (tree : FileTree) (path : Path) : Place := if path.isAbsolute then [] else tree.current

/-- Where a path leads, a slash at its end left aside. -/
def spot (tree : FileTree) (path : Path) : Except DiskError Spot :=
  if path.text.isEmpty then .error .notFound else tree.walk (tree.origin path) (names path)

/-- What a path leads to, if it leads to something. -/
def find (tree : FileTree) (path : Path) : Except DiskError (Place × Node) := do
  match ← tree.spot path with
  | .vacant _ => .error .notFound
  | .taken place .directory => .ok (place, .directory)
  | .taken place node => if wantsDirectory path then .error .notDirectory else .ok (place, node)

/-- Whether a path leads to a directory. -/
def isDirectory (tree : FileTree) (path : Path) : Bool :=
  match tree.find path with
  | .ok (_, .directory) => true
  | _ => false

/-- The content of a file. -/
def read (tree : FileTree) (path : Path) : Except DiskError Content := do
  match ← tree.find path with
  | (_, .directory) => .error .isDirectory
  | (_, .file content) => .ok content

/-- The text of a file. -/
def readText (tree : FileTree) (path : Path) : Except DiskError Text := do
  match ← tree.read path with
  | .text text => .ok text
  | .bytes _ => .error .notText

/-- Give a file a content. -/
def write (tree : FileTree) (path : Path) (content : Content) : Except DiskError FileTree := do
  match ← tree.spot path with
  | .taken _ .directory => .error .isDirectory
  | .taken place (.file _) | .vacant place =>
    if wantsDirectory path then .error .isDirectory else .ok (tree.put place (.file content))

/-- Make a directory whose parent is there. -/
def makeDir (tree : FileTree) (path : Path) : Except DiskError FileTree := do
  match ← tree.spot path with
  | .taken _ _ => .error .alreadyExists
  | .vacant place => .ok (tree.put place .directory)

/-- An error in making a directory, unless the directory is there. -/
def excuse (tree : FileTree) (path : Path) (error : DiskError) : Except DiskError Unit :=
  if error = .alreadyExists ∧ tree.isDirectory path then .ok () else .error error

/-- Make the first of a list of directories, each of which lies in the next
one. What has been made stays if a later step fails. -/
def makeAll (tree : FileTree) : List Path → Except DiskError Unit × FileTree
  | [] => (.ok (), tree)
  | path :: above =>
    if path.text.isEmpty ∨ path.parent? = none then (.ok (), tree)
    else
      match tree.makeDir path with
      | .ok made => (.ok (), made)
      | .error .notFound =>
        match makeAll tree above with
        | (.error error, tree) => (.error error, tree)
        | (.ok (), tree) =>
          match tree.makeDir path with
          | .ok made => (.ok (), made)
          | .error error => (tree.excuse path error, tree)
      | .error error => (tree.excuse path error, tree)

/-- Make a directory and those above it that are missing. -/
def makeDirs (tree : FileTree) (path : Path) : Except DiskError Unit × FileTree :=
  tree.makeAll path.ancestors

/-- Remove a directory with all it holds. -/
def removeDir (tree : FileTree) (path : Path) : Except DiskError FileTree := do
  match ← tree.find path with
  | (place, .directory) => .ok (tree.remove place)
  | (_, .file _) => .error .notDirectory

/-- What is left of a place below another one, if a file stands there. -/
def fileBelow? (place : Place) : Place × Node → Option (List Text)
  | (_, .directory) => none
  | (found, .file _) => if place.isPrefixOf found then some (found.drop place.length) else none

/-- The names that lead to the files below a directory, in order. -/
def filesBelow (tree : FileTree) (path : Path) : List (List Text) :=
  match tree.find path with
  | .ok (place, .directory) => tree.nodes.filterMap (fileBelow? place)
  | _ => []

/-- Go on with a changed tree, or keep the tree and fail. -/
def settle (tree : FileTree) : Except DiskError FileTree → Except DiskError Unit × FileTree
  | .ok changed => (.ok (), changed)
  | .error error => (.error error, tree)

end FileTree

/-- A file tree is a disk. -/
instance : Disk (StateM FileTree) where
  readText path tree := (tree.readText path, tree)
  writeText path text tree := tree.settle (tree.write path (.text text))
  makeDirs path tree := tree.makeDirs path
  removeDir path tree := tree.settle (tree.removeDir path)
  isThere path tree := ((tree.find path).toBool, tree)
  isFile path tree := ((tree.read path).toBool, tree)
  filesBelow path tree := (tree.filesBelow path, tree)

end InterfaceSchema
