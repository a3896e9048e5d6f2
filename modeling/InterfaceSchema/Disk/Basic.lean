import InterfaceSchema.Path

/-!
# Disks

What a program may do with files and directories. A disk is a monad with
these operations; each of them answers with an error if it fails.
-/

namespace InterfaceSchema

/-- Why an operation on files fails. -/
inductive DiskError where
  | notFound
  | alreadyExists
  | notDirectory
  | isDirectory
  /-- The content of a file is not the UTF-8 form of a text. -/
  | notText
  /-- Some other reason, in the words of the system. -/
  | other (message : Text)
deriving DecidableEq, Repr

/-- The wording of an error. -/
def DiskError.message : DiskError → Text
  | .notFound => "No such file or directory (os error 2)"
  | .alreadyExists => "File exists (os error 17)"
  | .notDirectory => "Not a directory (os error 20)"
  | .isDirectory => "Is a directory (os error 21)"
  | .notText => "stream did not contain valid UTF-8"
  | .other message => message

/-- The operations on files and directories. -/
class Disk (m : Type → Type) where
  /-- The text of a file. -/
  readText : Path → m (Except DiskError Text)
  /-- Give a file this text; the file is made if it is missing. -/
  writeText : Path → Text → m (Except DiskError Unit)
  /-- Make a directory and those above it that are missing. -/
  makeDirs : Path → m (Except DiskError Unit)
  /-- Remove a directory with all it holds. -/
  removeDir : Path → m (Except DiskError Unit)
  /-- Whether there is a file or directory. -/
  isThere : Path → m Bool
  /-- Whether there is a file. -/
  isFile : Path → m Bool
  /-- The names that lead to the files below a directory, in order; none if
  there is no directory. -/
  filesBelow : Path → m (List (List Text))

end InterfaceSchema
