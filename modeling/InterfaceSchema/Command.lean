import InterfaceSchema.CommandLine
import InterfaceSchema.Config.Discover
import InterfaceSchema.Report

/-!
# The command

Tasks come from the command line or from a configuration and are run one after
another. The first error ends the command; what was reported before stays.
-/

namespace InterfaceSchema

/-- What a command shows and how it ends. -/
structure Outcome where
  /-- The exit code: 0 for success, 1 for an error, 2 for a command line that
  cannot be understood. -/
  exitCode : UInt32
  output : Text
  warnings : List Text
  /-- What is told about an error. -/
  errors : List Text
deriving DecidableEq, Repr

namespace Command

variable {m : Type → Type} [Monad m] [Disk m]

/-- The lines that help shows. -/
def helpLines : List String := [
  "Generate validator schemas from TypeScript interfaces",
  "",
  "Usage: schemagen [OPTIONS] [TARGET]",
  "",
  "Arguments:",
  "  [TARGET]  Target dialect: typebox, zod, valibot, yup, effect, jsonschema or types. " ++
    "Without it, tasks are read from the config file",
  "",
  "Options:",
  "  -i, --input <INPUT>    Input directory (defaults to src/types)",
  "  -o, --output <OUTPUT>  Output directory (defaults to src/generated)",
  "  -c, --config <CONFIG>  Path to the config file (defaults to searching upwards from the " ++
    "current directory)",
  "      --no-clean         Keep existing output instead of removing it first",
  "      --no-fix-imports   Leave relative imports without a `.js` extension",
  "  -v, --verbose...       Log more (-v debug, -vv trace); RUST_LOG overrides",
  "  -h, --help             Print help",
  "  -V, --version          Print version"]

/-- What help shows. -/
def helpText : Text := helpLines.flatMap fun line => line.toList ++ ['\n']

/-- The name and version of the command. -/
def versionText : Text := "schemagen 0.1.0\n"

/-- The outcome that shows a text. -/
def showing (text : Text) : Outcome := ⟨0, text, [], []⟩

/-- The options of a run for a task. -/
def options (task : Task) : RunOptions :=
  ⟨task.target, task.input, task.output, task.clean, task.fixImports⟩

/-- The outcome with a report added before it. -/
def reported (report : Report) (after : Outcome) : Outcome :=
  { after with
    output := report.text ++ after.output
    warnings := report.warnings.map Report.warningLine ++ after.warnings }

/-- Run tasks up to the first error. -/
def runTasks (current : Path) : List Task → m Outcome
  | [] => pure (showing [])
  | task :: rest => do
    match ← (Run.run (options task)).run with
    | .error error => return ⟨1, [], [], error.chain⟩
    | .ok summary =>
      let after ← runTasks current rest
      return reported (.ofSummary current task.input summary) after

/-- The wordings of a report about an error. -/
def diagnosticLines (report : Diagnostic) : List Text := report.message :: report.help.toList

/-- The tasks of a configuration. -/
def configuredTasks (invocation : Invocation) (current : Path) : ConfigFile.LoadM m (List Task) := do
  let file ← ConfigFile.load invocation.config current
  match file.tasks invocation.overrides current with
  | .ok tasks => return tasks
  | .error error => throw (.faulty file.path file.content error)

/-- Generate what was asked for. -/
def generate (invocation : Invocation) (current : Path) : m Outcome := do
  match invocation.target with
  | some target => runTasks current [Task.ofTarget target invocation.overrides current]
  | none =>
    match ← (configuredTasks invocation current).run with
    | .ok tasks => runTasks current tasks
    | .error error => return ⟨1, [], [], diagnosticLines error.diagnostic⟩

/-- Run the command with arguments in a working directory. -/
def run (arguments : List Text) (current : Path) : m Outcome := do
  match CommandLine.read arguments with
  | .error error => return ⟨2, [], [], [error.message]⟩
  | .ok .help => return showing helpText
  | .ok .version => return showing versionText
  | .ok (.generate invocation) => generate invocation current

end Command

end InterfaceSchema
