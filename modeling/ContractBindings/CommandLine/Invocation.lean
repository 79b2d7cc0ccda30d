import ContractBindings.CommandLine.Parser
import ContractBindings.Config.State

namespace ContractBindings

/-!
# Invocations

A command line names one command, with options of the program before it and
options of the command behind it.  Paths are checked while they are read: what
is to be a file must not be a directory.
-/

namespace CommandLine

/-- What a command line asks for. -/
inductive Command where
  /-- To write the bindings for a compiler output. -/
  | generate (source : Text) (output suffix : Option Text)
  /-- To print the options. -/
  | config

/-- A command with the options of the program. -/
structure Invocation where
  debug : Bool
  silent : Bool
  configPath : Option Text
  command : Command

/-- Command lines that name no command to be run. -/
inductive Dismissal where
  /-- Help or the version is asked for. -/
  | answered
  /-- The command line is wrong. -/
  | misused
  deriving DecidableEq, Repr

/-- The options of the program. -/
inductive ProgramOption where
  | debug
  | silent
  | config
  | help
  deriving DecidableEq

/-- The spellings of the options of the program. -/
def programRules : List (OptionRule ProgramOption) :=
  [⟨["-d", "--debug"], false, .debug⟩, ⟨["-s", "--silent"], false, .silent⟩,
    ⟨["--config"], true, .config⟩, ⟨["-h", "--help", "--version"], false, .help⟩]

/-- The options of commands. -/
inductive CommandOption where
  | output
  | localSuffix
  | help
  deriving DecidableEq

/-- The spellings for asking a command for help. -/
def helpRule : OptionRule CommandOption :=
  ⟨["-h", "--help"], false, .help⟩

/-- The spellings of the options for writing bindings. -/
def generateRules : List (OptionRule CommandOption) :=
  [⟨["-o", "--output"], true, .output⟩, ⟨["--local-suffix"], true, .localSuffix⟩, helpRule]

/-- Reads arguments, which help that is asked for dismisses. -/
def readOrDismiss [DecidableEq ι] (rules : List (OptionRule ι)) (help : ι) (mayFollow : Bool)
    (arguments : List Text) : Except Dismissal (Given ι) :=
  match read rules mayFollow arguments with
  | none => .error .misused
  | some given => if given.has help then .error .answered else .ok given

/-- Refuses a path that leads to a directory. -/
def refuseDirectory (surroundings : Surroundings) : Option Text → Except Dismissal Unit
  | none => .ok ()
  | some path =>
      match surroundings.files.find? surroundings.directory path with
      | some (_, .directory) => .error .misused
      | _ => .ok ()

/-- Accepts a path that leads to a file. -/
def requireFile (surroundings : Surroundings) (path : Text) : Except Dismissal Unit :=
  match surroundings.files.find? surroundings.directory path with
  | some (_, .file) => .ok ()
  | _ => .error .misused

/-- Reads the arguments of the command that writes bindings. -/
def readGenerate (surroundings : Surroundings) (arguments : List Text) :
    Except Dismissal Command := do
  let given ← readOrDismiss generateRules .help true arguments
  refuseDirectory surroundings (given.last? .output)
  match given.arguments with
  | [source] => do
      requireFile surroundings source
      return .generate source (given.last? .output) (given.last? .localSuffix)
  | _ => .error .misused

/-- Reads the arguments of the command that prints the options. -/
def readConfig (arguments : List Text) : Except Dismissal Command := do
  let given ← readOrDismiss [helpRule] .help true arguments
  if given.arguments.isEmpty then return .config else .error .misused

/-- The file with options that the environment names, unless it is empty. -/
def configPathOf (environment : Keyed Text) : Option Text :=
  match environment.get? "ABITYPES_CONFIG" with
  | some [] => none
  | other => other

/-- Reads a command line. -/
def readInvocation (surroundings : Surroundings) (arguments : List Text) :
    Except Dismissal Invocation := do
  let given ← readOrDismiss programRules .help false arguments
  let configPath := (given.last? .config).or (configPathOf surroundings.environment)
  refuseDirectory surroundings configPath
  match given.arguments with
  | name :: rest => do
      let command ←
        if name = "generate" then readGenerate surroundings rest
        else if name = "config" then readConfig rest
        else .error .misused
      return ⟨given.has .debug, given.has .silent, configPath, command⟩
  | [] => .error .misused

end CommandLine

end ContractBindings
