import InterfaceSchema.Config.Basic
import InterfaceSchema.Text.Search

/-!
# Command lines

Arguments are read from left to right. Asking for help or for the version ends
the reading at once; anything that cannot be understood before that is an
error. Options stand in any order; several options of one letter may be
written together, and a value may follow its option directly. After two
dashes every argument is a target.
-/

namespace InterfaceSchema

/-- What a command line asks to generate. -/
structure Invocation where
  /-- The target; without one, tasks come from a configuration. -/
  target : Option Target
  input : Option Path
  output : Option Path
  /-- The configuration file. -/
  config : Option Path
  noClean : Bool
  noFixImports : Bool
  /-- How often more messages were asked for. -/
  verbosity : Nat
deriving DecidableEq, Repr

/-- What a command line asks for. -/
inductive Request where
  | help
  | version
  | generate (invocation : Invocation)
deriving DecidableEq, Repr

/-- Why a command line cannot be understood. -/
inductive UsageError where
  | unknownOption (argument : Text)
  | missingValue (option : Text)
  | unexpectedValue (option : Text)
  | repeated (option : Text)
  | surplusArgument (argument : Text)
  | invalidTarget (unknown : UnknownTarget)
deriving DecidableEq, Repr

/-- The wording of an error. -/
def UsageError.message : UsageError → Text
  | .unknownOption argument => "unexpected argument '" ++ argument ++ "' found"
  | .missingValue option =>
    "a value is required for '" ++ option ++ "' but none was supplied"
  | .unexpectedValue option => "unexpected value for '" ++ option ++ "'"
  | .repeated option => "the argument '" ++ option ++ "' cannot be used multiple times"
  | .surplusArgument argument => "unexpected argument '" ++ argument ++ "' found"
  | .invalidTarget unknown => unknown.message

namespace CommandLine

/-- The options that take a value. -/
inductive PathOption where
  | input
  | output
  | config
deriving DecidableEq, Repr

/-- The options that are given or not. -/
inductive Switch where
  | noClean
  | noFixImports
  | verbose
  | help
  | version
deriving DecidableEq, Repr

/-- Any option. -/
inductive CommandOption where
  | path (option : PathOption)
  | switch (switch : Switch)
deriving DecidableEq, Repr

namespace CommandOption

/-- The option with a long name. -/
def ofLong? (name : Text) : Option CommandOption :=
  if name = "input" then some (.path .input)
  else if name = "output" then some (.path .output)
  else if name = "config" then some (.path .config)
  else if name = "no-clean" then some (.switch .noClean)
  else if name = "no-fix-imports" then some (.switch .noFixImports)
  else if name = "verbose" then some (.switch .verbose)
  else if name = "help" then some (.switch .help)
  else if name = "version" then some (.switch .version)
  else none

/-- The option with a name of one letter. -/
def ofLetter? : Char → Option CommandOption
  | 'i' => some (.path .input)
  | 'o' => some (.path .output)
  | 'c' => some (.path .config)
  | 'v' => some (.switch .verbose)
  | 'h' => some (.switch .help)
  | 'V' => some (.switch .version)
  | _ => none

end CommandOption

/-- The long name of an option with a value. -/
def PathOption.name : PathOption → Text
  | .input => "--input"
  | .output => "--output"
  | .config => "--config"

/-- What reading the arguments has come to. -/
inductive Progress where
  | reading (invocation : Invocation)
  /-- A value has to follow. -/
  | awaiting (option : PathOption) (invocation : Invocation)
  | done (request : Request)

/-- Nothing asked for so far. -/
def blank : Invocation := ⟨none, none, none, none, false, false, 0⟩

/-- The value that an option has. -/
def valueOf (invocation : Invocation) : PathOption → Option Path
  | .input => invocation.input
  | .output => invocation.output
  | .config => invocation.config

/-- Give an option its value. -/
def setPath (option : PathOption) (value : Text) (invocation : Invocation) :
    Except UsageError Invocation :=
  if (valueOf invocation option).isSome then .error (.repeated option.name)
  else if value.isEmpty then .error (.missingValue option.name)
  else .ok <| match option with
    | .input => { invocation with input := some ⟨value⟩ }
    | .output => { invocation with output := some ⟨value⟩ }
    | .config => { invocation with config := some ⟨value⟩ }

/-- Take a switch into account. -/
def setSwitch (switch : Switch) (invocation : Invocation) : Except UsageError Progress :=
  match switch with
  | .help => .ok (.done .help)
  | .version => .ok (.done .version)
  | .verbose => .ok (.reading { invocation with verbosity := invocation.verbosity + 1 })
  | .noClean =>
    if invocation.noClean then .error (.repeated "--no-clean")
    else .ok (.reading { invocation with noClean := true })
  | .noFixImports =>
    if invocation.noFixImports then .error (.repeated "--no-fix-imports")
    else .ok (.reading { invocation with noFixImports := true })

/-- Take an argument as the target. -/
def setTarget (argument : Text) (invocation : Invocation) : Except UsageError Invocation :=
  match invocation.target with
  | some _ => .error (.surplusArgument argument)
  | none =>
    match Target.parse argument with
    | .ok target => .ok { invocation with target := some target }
    | .error unknown => .error (.invalidTarget unknown)

/-- Read the letters of options written together. -/
def readLetters (invocation : Invocation) : Text → Except UsageError Progress
  | [] => .ok (.reading invocation)
  | letter :: rest =>
    match CommandOption.ofLetter? letter with
    | none => .error (.unknownOption ['-', letter])
    | some (.switch switch) => do
      match ← setSwitch switch invocation with
      | .reading invocation => readLetters invocation rest
      | other => .ok other
    | some (.path option) =>
      match rest with
      | [] => .ok (.awaiting option invocation)
      | '=' :: value => (setPath option value invocation).map .reading
      | value => (setPath option value invocation).map .reading

/-- Read an option with a long name, given without its dashes. -/
def readLong (invocation : Invocation) (text : Text) : Except UsageError Progress :=
  let (name, value) : Text × Option Text := match Text.splitFirst? ['='] text with
    | some (name, value) => (name, some value)
    | none => (text, none)
  match CommandOption.ofLong? name, value with
  | none, _ => .error (.unknownOption ("--" ++ name))
  | some (.path option), some value => (setPath option value invocation).map .reading
  | some (.path option), none => .ok (.awaiting option invocation)
  | some (.switch _), some _ => .error (.unexpectedValue ("--" ++ name))
  | some (.switch switch), none => setSwitch switch invocation

/-- Read the arguments after two dashes. -/
def readTargets (invocation : Invocation) : List Text → Except UsageError Invocation
  | [] => .ok invocation
  | argument :: rest => do
    let invocation ← setTarget argument invocation
    readTargets invocation rest

/-- Read arguments. -/
def readFrom (progress : Progress) : List Text → Except UsageError Request
  | [] =>
    match progress with
    | .reading invocation => .ok (.generate invocation)
    | .awaiting option _ => .error (.missingValue option.name)
    | .done request => .ok request
  | argument :: rest =>
    match progress with
    | .done request => .ok request
    | .awaiting option invocation =>
      match argument with
      | '-' :: _ :: _ => .error (.missingValue option.name)
      | value => do
        let invocation ← setPath option value invocation
        readFrom (.reading invocation) rest
    | .reading invocation =>
      match argument with
      | ['-', '-'] => (readTargets invocation rest).map .generate
      | '-' :: '-' :: name => do
        let progress ← readLong invocation name
        readFrom progress rest
      | '-' :: letter :: more => do
        let progress ← readLetters invocation (letter :: more)
        readFrom progress rest
      | argument => do
        let invocation ← setTarget argument invocation
        readFrom (.reading invocation) rest

/-- Read a command line, given without the name of the program. -/
def read (arguments : List Text) : Except UsageError Request := readFrom (.reading blank) arguments

end CommandLine

namespace Invocation

/-- The settings that come before those of a configuration. -/
def overrides (invocation : Invocation) : Overrides where
  input := invocation.input
  output := invocation.output
  clean := if invocation.noClean then some false else none
  fixImports := if invocation.noFixImports then some false else none

end Invocation

end InterfaceSchema
