import InterfaceSchema.Data.Fault
import InterfaceSchema.Run.Generation

/-!
# Reports about tasks

What is shown to the user about a task that has been run: its warnings, the
schema files and some counts. Paths are shown as seen from the working
directory if they lie below it. A task without source files shows warnings
only.
-/

namespace InterfaceSchema

/-- A schema file in a report. -/
structure ReportedFile where
  path : Text
  /-- Whether the file has got another content. -/
  changed : Bool
deriving DecidableEq, Repr

/-- Counts about completed specifiers. -/
structure ImportCounts where
  scanned : Nat
  fixed : Nat
deriving DecidableEq, Repr

/-- What is shown about a task. -/
structure Report where
  target : Target
  inputDir : Text
  outputDir : Text
  schemas : List ReportedFile
  barrelCount : Nat
  imports : Option ImportCounts
  warnings : List Text
deriving DecidableEq, Repr

namespace Report

/-- A path as seen from the working directory. -/
def shownPath (current path : Path) : Text := ((path.relativeTo? current).getD path).text

/-- The report about a run. -/
def ofSummary (current inputDir : Path) (summary : RunSummary) : Report where
  target := summary.target
  inputDir := shownPath current inputDir
  outputDir := shownPath current summary.baseDir
  schemas := summary.files.map fun file =>
    ⟨shownPath current file.output, file.result = .written⟩
  barrelCount := summary.barrels.written.length
  imports := summary.imports.map fun imports => ⟨imports.scanned, imports.fixed.length⟩
  warnings := summary.warnings

/-- The line about a schema file. -/
def fileLine (file : ReportedFile) : Text :=
  if file.changed then "  + " ++ file.path else "  - " ++ file.path ++ " (unchanged)"

/-- A line with a name and a value. -/
def valueLine (name value : Text) : Text := name ++ (": " ++ value)

/-- The line about completed specifiers. -/
def importsLine (counts : ImportCounts) : Text :=
  valueLine "Fixed imports" (decimalDigits counts.fixed ++ (" of " ++ (decimalDigits counts.scanned ++
    " files")))

/-- The lines of a report. -/
def lines (report : Report) : List Text :=
  if report.schemas.isEmpty then []
  else
    let heading := report.target.name ++ (" (" ++ (decimalDigits report.schemas.length ++ " files):"))
    heading :: report.schemas.map fileLine ++
      [[], valueLine "Input" report.inputDir, valueLine "Generated" report.outputDir,
        valueLine "Barrels" (decimalDigits report.barrelCount)] ++
      (report.imports.map importsLine).toList ++ [[]]

/-- The text of a report. -/
def text (report : Report) : Text := report.lines.flatMap fun line => line ++ ['\n']

/-- The line about a warning. -/
def warningLine (warning : Text) : Text := "warning: " ++ warning

end Report

end InterfaceSchema
