import ContractBindings.Abi.Reader
import ContractBindings.CommandLine.Invocation
import ContractBindings.CommandLine.Markup
import ContractBindings.Json.Reader
import ContractBindings.Source.Module

namespace ContractBindings

/-!
# Running commands

A command reads its options and then does its work.  The outcome of a run is a
value: what is written to which file, what is printed and how the run ends.
-/

namespace CommandLine

/-- Why a command broke off without a message of its own. -/
inductive Breakdown where
  | config (failure : ConfigFailure)
  /-- The compiler output has issues. -/
  | issues (issues : List Issue)
  | fault (fault : Fault)
  /-- No number of underscores makes a name free. -/
  | noFreeName
  /-- A file stands where a directory is to be made. -/
  | directoryOccupied
  /-- A file stands on the way to a directory. -/
  | fileOnTheWay
  /-- A directory stands where a file is to be written. -/
  | fileOccupied
  /-- A closing tag in a message closes nothing. -/
  | unbalancedMarkup

/-- A file that a run leaves behind. -/
structure Written where
  path : AbsolutePath
  /-- The module in the file, which stays empty if the module has no encoding. -/
  module : Option GeneratedModule

namespace Written

/-- The text in the file. -/
def content (written : Written) : Text :=
  (written.module.map (·.text)).getD []

end Written

/-- What came of a command line. -/
structure Outcome where
  exitCode : Nat
  written : Option Written
  printed : Text
  breakdown : Option Breakdown

namespace Outcome

/-- Nothing done, with an exit code. -/
def exit (code : Nat) : Outcome :=
  ⟨code, none, [], none⟩

/-- A message printed on the way out. -/
def say (code : Nat) (message : Text) : Outcome :=
  ⟨code, none, message, none⟩

/-- A command that broke off. -/
def broken (breakdown : Breakdown) : Outcome :=
  ⟨1, none, [], some breakdown⟩

/-- A marked-up message of a failure, on the way out. -/
def complain (message : Text) : Outcome :=
  match Markup.print? (Markup.styled "red" message) with
  | some printed => say 1 (printed ++ "\n")
  | none => broken .unbalancedMarkup

/-- An outcome after records that are logged first.  Their messages are marked-up
text. -/
def logging (debug : Bool) (records : List LogRecord) (outcome : Outcome) : Outcome :=
  if (LogRecord.visible debug records).all fun record => (Markup.print? record.message).isSome then
    outcome
  else broken .unbalancedMarkup

end Outcome

/-- The text of a file with each kind of line end as a line feed. -/
def unifyLines (t : Text) : Text :=
  Text.replace (Text.replaceAll t "\r\n" "\n") '\r' '\n'

/-- The configuration of an invocation, and what was logged while it was loaded. -/
def configOf (surroundings : Surroundings) (configPath : Option Text) :
    Except ConfigFailure Config × List LogRecord :=
  match Config.make surroundings configPath none with
  | .error failure => (.error failure, [])
  | .ok config =>
      match config.loadConfigs surroundings with
      | (config, none, logs) => (.ok config, logs)
      | (_, some failure, logs) => (.error failure, logs)

/-- The options that a command line sets. -/
def givenOptions (output suffix : Option Text) : Option Setting :=
  match output, suffix with
  | none, none => none
  | output, suffix =>
      some <| .table [("generator", .table
        ((output.map fun path => (("output" : Text), Setting.text path)).toList ++
          (suffix.map fun suffix => (("local_suffix" : Text), Setting.text suffix)).toList))]

/-- The configuration with the options of a command line. -/
def withGiven (config : Config) (output suffix : Option Text) : Except ConfigFailure Config :=
  match givenOptions output suffix with
  | none => .ok config
  | some setting =>
      match config.update setting [] with
      | (config, .ok _) => .ok config
      | (_, .error failure) => .error failure

/-- The marked-up message for a compiler output that is no JSON.  The path is not
protected. -/
def syntaxMessage (source : Text) (stop : Json.Stop) (t : Text) : Text :=
  "Failed to parse compiler output '" ++ Text.tidyPath source ++ "': " ++
    Markup.escape (stop.message t)

/-- The marked-up message for a module that was written.  The path is not
protected, and the time it took has no part in the markup. -/
def writtenMessage (path : AbsolutePath) : Text :=
  "[green]Generated bindings [bold green]" ++ path.toText ++
    "[/bold green] in [bold green]0.00 s[/bold green][/]"

/-- Whether a path can be a directory, made with the directories around it. -/
def makeDirectory (files : FileTree) (path : AbsolutePath) : Except Breakdown Unit :=
  if files.isFile path then .error .directoryOccupied
  else if files.files.any fun (file, _) => path.isInside file then .error .fileOnTheWay
  else if path.isUnusable then .error (.fault .longName)
  else .ok ()

/-- Writes a module. -/
def writeModule (files : FileTree) (path : AbsolutePath) (module : GeneratedModule) : Outcome :=
  match makeDirectory files path.parent with
  | .error breakdown => .broken breakdown
  | .ok () =>
      if files.isDirectory path then .broken .fileOccupied
      else if path.isUnusable then .broken (.fault .longName)
      else if ! Text.isScalar module.body then
        ⟨1, some ⟨path, none⟩, [], some (.fault .unencodable)⟩
      else
        match Markup.print? (writtenMessage path) with
        | some _ => ⟨0, some ⟨path, some module⟩, [], none⟩
        | none => ⟨1, some ⟨path, some module⟩, [], some .unbalancedMarkup⟩

/-- The text of the input, each kind of line end as a line feed. -/
def contentOf? (surroundings : Surroundings) (source : Text) : Option Text :=
  match surroundings.files.find? surroundings.directory source with
  | some (path, _) => (surroundings.files.read? path).map unifyLines
  | none => none

/-- The document in the input, or how the run ends without it. -/
def documentOf (source content : Text) : Except Outcome Value :=
  if ! Text.isScalar content then .error (.broken (.fault .undecodable))
  else
    match Json.read content with
    | .ok document => .ok document
    | .error stop =>
        if stop.fault = .integerTooLong then .error (.broken (.fault .badValue))
        else if stop.fault = .tooDeep then .error (.broken (.fault .tooNested))
        else .error (.complain (syntaxMessage source stop content))

/-- The module for a compiler output with what was logged, or how the run ends
without it. -/
def moduleOf (suffix : Text) (document : Value) :
    Except Outcome (Assembly.Logged GeneratedModule) :=
  match CompilerOutput.read document with
  | .refused found => .error (.broken (.issues found))
  | .stopped found => .error (.broken (.fault found))
  | .accepted output =>
      match GeneratedModule.generate suffix output with
      | .ok logged => .ok logged
      | .error (.rejected rejection) => .error (.complain (Markup.escape rejection.message))
      | .error (.fault found) => .error (.broken (.fault found))
      | .error .emptySuffix => .error (.broken (.fault .badValue))
      | .error .noFreeName => .error (.broken .noFreeName)

/-- Writes the bindings for a compiler output. -/
def generate (surroundings : Surroundings) (debug : Bool) (config : Config) (source : Text) :
    Outcome :=
  match contentOf? surroundings source with
  | none => .exit 2
  | some content =>
      match documentOf source content with
      | .error outcome => outcome
      | .ok document =>
          match moduleOf config.localSuffix document with
          | .error outcome => outcome
          | .ok (module, logs) =>
              (writeModule surroundings.files config.output module).logging debug logs

/-- Runs a command with its options. -/
def runCommand (surroundings : Surroundings) (debug : Bool) (config : Config) :
    Command → Outcome
  | .config => .say 0 (config.toNode.indented 0 ++ "\n")
  | .generate source output suffix =>
      match withGiven config output suffix with
      | .error failure => .broken (.config failure)
      | .ok config => generate surroundings debug config source

/-- Runs a command line. -/
def run (surroundings : Surroundings) (arguments : List Text) : Outcome :=
  match readInvocation surroundings arguments with
  | .error .answered => .exit 0
  | .error .misused => .exit 2
  | .ok invocation =>
      let (config, logs) := configOf surroundings invocation.configPath
      let outcome := match config with
        | .error failure => Outcome.broken (.config failure)
        | .ok config => runCommand surroundings invocation.debug config invocation.command
      let outcome := outcome.logging invocation.debug logs
      if invocation.silent then { outcome with printed := [] } else outcome

end CommandLine

end ContractBindings
