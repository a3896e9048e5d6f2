import InterfaceSchema.Path
import InterfaceSchema.Target

/-!
# Where the files of a run lie

The output of a target has a directory of its own. Schema files lie below its
directory `types` as the source files lie below the input directory; the
barrels of a schema file lie in a directory named after it.
-/

namespace InterfaceSchema

/-- What is generated from what. -/
structure RunOptions where
  target : Target
  inputDir : Path
  outputDir : Path
  /-- Whether older output of the target is removed first. -/
  clean : Bool
  /-- Whether import specifiers are completed at the end. -/
  fixImports : Bool
deriving DecidableEq, Repr

namespace RunOptions

/-- The directory for all output of the target. -/
def baseDir (options : RunOptions) : Path := options.outputDir.join ⟨options.target.name⟩

/-- The name of the directory for schema files. -/
def schemaDirName : Path := ⟨"types"⟩

/-- The directory for schema files. -/
def schemaDir (options : RunOptions) : Path := options.baseDir.join schemaDirName

end RunOptions

/-- A source file as seen from the input directory; a file that does not lie
there is known by its name. -/
def relativeInput (input inputDir : Path) : Path :=
  (input.relativeTo? inputDir).getD ⟨input.fileName?.getD []⟩

end InterfaceSchema
