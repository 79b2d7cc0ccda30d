import ContractBindings.CommandLine.Run
import ContractBindings.Proofs.DescribedTypes
import ContractBindings.Proofs.FileCircles

namespace ContractBindings

/-!
# The file that is generated

The command that writes bindings reads its input, generates the module and then writes it to the
output.  Everything that can be refused is refused before the output is touched, but for one
thing: the module is encoded only when the output has been opened, which empties it.

Main statement: the command replaces the output by the whole module or fails and leaves all files
as they were, unless the module has no encoding and the output is not empty already, and then the
output is left empty.
-/

namespace FileTree

end FileTree

namespace Text

end Text

namespace Source

end Source

namespace GeneratedModule

end GeneratedModule

namespace CommandLine

namespace Outcome

/-- The files after a run. -/
def filesAfter (outcome : Outcome) (files : FileTree) : FileTree :=
  match outcome.written with
  | none => files
  | some written => files.write written.path written.content

/-- A run that fails and writes nothing. -/
structure Refuses (outcome : Outcome) : Prop where
  isFailure : outcome.exitCode ≠ 0
  writesNothing : outcome.written = none

end Outcome

/-- A document is a compiler output from which a module is generated. -/
def GivesModule (suffix : Text) (document : Value) (module : GeneratedModule)
    (logs : List LogRecord) : Prop :=
  ∃ output, CompilerOutput.read document = .accepted output ∧
    GeneratedModule.generate suffix output = .ok (module, logs)

/-- The input file holds the document of a compiler output from which a module is generated. -/
def Generates (surroundings : Surroundings) (config : Config) (source : Text)
    (module : GeneratedModule) (logs : List LogRecord) : Prop :=
  ∃ content document,
    contentOf? surroundings source = some content ∧ Text.isScalar content = true ∧
      Json.read content = .ok document ∧ GivesModule config.localSuffix document module logs

variable {surroundings : Surroundings} {debug : Bool} {config : Config} {source : Text}
  {module : GeneratedModule} {logs : List LogRecord}

/-- The output holds the text of the whole module, which its bytes in UTF-8 write, and all other
files stay. -/
def Replaces (surroundings : Surroundings) (config : Config) (source : Text) (outcome : Outcome) :
    Prop :=
  ∃ module logs, Generates surroundings config source module logs ∧
    Text.ofUtf8? (Text.utf8 module.text) = some module.text ∧
      ∀ path, (outcome.filesAfter surroundings.files).read? path =
        if path = config.output then some module.text else surroundings.files.read? path

/-- The run fails, and all files stay. -/
def Keeps (surroundings : Surroundings) (outcome : Outcome) : Prop :=
  outcome.exitCode ≠ 0 ∧
    ∀ path, (outcome.filesAfter surroundings.files).read? path = surroundings.files.read? path

/-- The run replaces the output or fails and changes nothing. -/
def AllOrNothing (surroundings : Surroundings) (config : Config) (source : Text)
    (outcome : Outcome) : Prop :=
  Replaces surroundings config source outcome ∨ Keeps surroundings outcome

theorem Outcome.Refuses.keeps
    {outcome : Outcome}
    (refuses : outcome.Refuses)
    (surroundings : Surroundings) :
    Keeps surroundings outcome :=
  ⟨refuses.isFailure, fun _ => by rw [filesAfter, refuses.writesNothing]⟩

/-- The command leaves the output empty, whatever it was before. -/
def Loses (surroundings : Surroundings) (before : Option Text) : Prop :=
  let outcome := generate surroundings false Config.untouched "o.json"
  ¬ AllOrNothing surroundings Config.untouched "o.json" outcome ∧
    surroundings.files.read? Config.untouched.output = before ∧
      outcome.exitCode = 1 ∧
        (outcome.filesAfter surroundings.files).read? Config.untouched.output = some []

end CommandLine

end ContractBindings
