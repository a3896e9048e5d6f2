import InterfaceSchema.Config.TargetName
import InterfaceSchema.Disk.FileTree
import InterfaceSchema.Main
import InterfaceSchema.Proofs.Flatten.Hoisting
import InterfaceSchema.Proofs.Flatten.Rendering
import InterfaceSchema.Proofs.Flatten.Worklist
import InterfaceSchema.Proofs.Syntax.Placement
import InterfaceSchema.Proofs.Syntax.Tiling
import InterfaceSchema.Proofs.Syntax.Spans
import InterfaceSchema.Proofs.Syntax.Readers
import InterfaceSchema.Proofs.Syntax.TypeReaders
import InterfaceSchema.Proofs.Syntax.MemberReaders
import InterfaceSchema.Proofs.Syntax.PatternReaders
import InterfaceSchema.Proofs.Syntax.SourceReaders
import InterfaceSchema.Proofs.Flatten.Refinement
import InterfaceSchema.Proofs.Flatten.Preservation
import InterfaceSchema.Proofs.Fixup.Scanning
import InterfaceSchema.Proofs.Fixup.Replacing
import InterfaceSchema.Proofs.Fixup.Weaving
import InterfaceSchema.Proofs.Text.Names
import InterfaceSchema.Proofs.Fixup.Rewriting
import InterfaceSchema.Proofs.Dialect.Congruence
import InterfaceSchema.Proofs.Fixup.Framing
import InterfaceSchema.Proofs.Fixup.Records
import InterfaceSchema.Proofs.Fixup.Marks
import InterfaceSchema.Proofs.Fixup.Emission
import InterfaceSchema.Proofs.Disk.Places
import InterfaceSchema.Proofs.Disk.Trees
import InterfaceSchema.Proofs.Disk.Growth
import InterfaceSchema.Proofs.Disk.Steps
import InterfaceSchema.Proofs.Disk.Sources
import InterfaceSchema.Proofs.Disk.Writing
import InterfaceSchema.Proofs.Run.Phases
import InterfaceSchema.Proofs.Run.History
import InterfaceSchema.Proofs.Run.Outputs
import InterfaceSchema.Proofs.Run.Distinct
import InterfaceSchema.Proofs.Specifier.Completion
import InterfaceSchema.Proofs.Disk.Routes
import InterfaceSchema.Proofs.Disk.Listing
import InterfaceSchema.Proofs.Disk.Parents
import InterfaceSchema.Proofs.Disk.Making
import InterfaceSchema.Proofs.Disk.Confining
import InterfaceSchema.Proofs.Run.Paths
import InterfaceSchema.Proofs.Run.Plan
import InterfaceSchema.Proofs.Run.Succeeding
import InterfaceSchema.Proofs.Run.Again
import InterfaceSchema.Proofs.Run.Confinement
import InterfaceSchema.Proofs.Run.Abort
import InterfaceSchema.Proofs.Run.Beside
import InterfaceSchema.Proofs.Run.Independence
import InterfaceSchema.Proofs.Barrel.Exports
import InterfaceSchema.Proofs.Naming
import InterfaceSchema.Proofs.Barrel.Partition
import InterfaceSchema.Proofs.Flatten.Collisions
import InterfaceSchema.Proofs.Syntax.Nesting
import InterfaceSchema.Proofs.Flatten.Slicing
import InterfaceSchema.Proofs.Dialect.Refusals
import InterfaceSchema.Proofs.Dialect.Upholding
import InterfaceSchema.Proofs.Barrel.Types
import InterfaceSchema.Proofs.Barrel.Completeness
import InterfaceSchema.Proofs.Barrel.Interfaces
import InterfaceSchema.Proofs.Text.Literals
import InterfaceSchema.Proofs.Fixup.Literals
import InterfaceSchema.Proofs.Fixup.Sparing
import InterfaceSchema.Proofs.Text.Quoting
import InterfaceSchema.Proofs.Text.Meaning
import InterfaceSchema.Proofs.Text.Nested
import InterfaceSchema.Proofs.Specifier.Resolution
import InterfaceSchema.Proofs.Specifier.Barrels
import InterfaceSchema.Proofs.Specifier.Insertion
import InterfaceSchema.Proofs.Disk.Stems
import InterfaceSchema.Proofs.Specifier.Shortest
import InterfaceSchema.Proofs.Dialect.Convertibility
import InterfaceSchema.Proofs.Dialect.TypeBox
import InterfaceSchema.Proofs.Dialect.Unions
import InterfaceSchema.Proofs.Flatten.Fresh
import InterfaceSchema.Proofs.Dialect.Declaring
import InterfaceSchema.Proofs.Syntax.Lexemes
import InterfaceSchema.Proofs.Syntax.Printing
import InterfaceSchema.Proofs.Syntax.Legible
import InterfaceSchema.Proofs.Syntax.Following
import InterfaceSchema.Proofs.Syntax.Leaving
import InterfaceSchema.Proofs.Syntax.Tame
import InterfaceSchema.Proofs.Syntax.Written
import InterfaceSchema.Proofs.Syntax.ReadingBack
import InterfaceSchema.Proofs.Syntax.ReadingOperands
import InterfaceSchema.Proofs.Syntax.ReadingMembers
import InterfaceSchema.Proofs.Syntax.Roundtrip
import InterfaceSchema.Proofs.Syntax.LeavingStatements
import InterfaceSchema.Proofs.Syntax.Contiguity
import InterfaceSchema.Proofs.Syntax.Signatures
import InterfaceSchema.Proofs.Syntax.Operators
import InterfaceSchema.Proofs.Dialect.Keys
import InterfaceSchema.Proofs.Flatten.Copying
import InterfaceSchema.Proofs.Flatten.Scoping
import InterfaceSchema.Proofs.Config.Discovery
import InterfaceSchema.Proofs.Config.Tasks
import InterfaceSchema.Proofs.Text.Brackets
import InterfaceSchema.Proofs.Dialect.Spelling
import InterfaceSchema.Proofs.Dialect.Bracketing
import InterfaceSchema.Proofs.Text.ObjectLiterals
import InterfaceSchema.Proofs.Dialect.JsonSchema
import InterfaceSchema.Proofs.Dialect.Reading
import InterfaceSchema.Proofs.Fixup.ArgumentLists
import InterfaceSchema.Proofs.Syntax.Lists
import InterfaceSchema.Proofs.Config.Packages
import InterfaceSchema.Proofs.Layout.Indentation
import InterfaceSchema.Proofs.Text.Positions
import InterfaceSchema.Proofs.Syntax.Alike
import InterfaceSchema.Proofs.Flatten.Outcome
import InterfaceSchema.Proofs.Flatten.Inlining
import InterfaceSchema.Proofs.Flatten.Meaning
import InterfaceSchema.Proofs.Syntax.Declared
import InterfaceSchema.Proofs.Syntax.Openings
import InterfaceSchema.Proofs.Flatten.MadeNames
import InterfaceSchema.Proofs.Flatten.Again
