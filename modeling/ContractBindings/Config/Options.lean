import ContractBindings.Checking
import ContractBindings.Config.PathText
import ContractBindings.Config.Setting
import ContractBindings.Json.Writer

namespace ContractBindings

/-!
# Options

Options that were set are told apart from those that have their defaults.  All
paths among them are absolute.  Options are merged, removed one by one and
compared with earlier ones.
-/

/-- The options of the generator that are set. -/
structure GeneratorOptions where
  /-- Where the generated module is written. -/
  output : Option AbsolutePath
  /-- What is appended to the names of methods that execute calls. -/
  localSuffix : Option Text
  deriving DecidableEq

/-- The options that are set. -/
structure Options where
  /-- Further files with options. -/
  subconfigs : Option (List AbsolutePath)
  generator : Option GeneratorOptions
  deriving DecidableEq

namespace GeneratorOptions

/-- Nothing set. -/
def none : GeneratorOptions :=
  ⟨.none, .none⟩

/-- What new options set, and the rest as it was. -/
def merge (old new : GeneratorOptions) : GeneratorOptions :=
  ⟨new.output.or old.output, new.localSuffix.or old.localSuffix⟩

end GeneratorOptions

namespace Options

/-- Nothing set. -/
def none : Options :=
  ⟨.none, .none⟩

/-- The suffix unless another one is set. -/
def defaultSuffix : Text :=
  "_"

/-- The path of the generated module unless another one is set. -/
def defaultOutput (project : AbsolutePath) : AbsolutePath :=
  project.child "contracts.py"

/-- Every option set to its default. -/
def defaults (project : AbsolutePath) : Options :=
  ⟨some [], some ⟨some (defaultOutput project), some defaultSuffix⟩⟩

/-- Where the generated module is written. -/
def output (options : Options) (project : AbsolutePath) : AbsolutePath :=
  ((options.generator.bind (·.output))).getD (defaultOutput project)

/-- What is appended to the names of methods that execute calls. -/
def localSuffix (options : Options) : Text :=
  ((options.generator.bind (·.localSuffix))).getD defaultSuffix

/-- What new options set, and the rest as it was. -/
def merge (old new : Options) : Options :=
  { subconfigs := new.subconfigs.or old.subconfigs
    generator :=
      match old.generator, new.generator with
      | some old, some new => some (old.merge new)
      | old, new => new.or old }

/-!
## Reading options
-/

/-- A suffix that may be set: letters, digits and underscores, which a line
break may end. -/
def isSuffix (t : Text) : Bool :=
  let word := (Text.dropEnd? t "\n").getD t
  word ≠ [] && word.all CodePoint.isAsciiWord

/-- The reason to refuse a suffix. -/
def suffixReason (t : Text) : Text :=
  "Local method suffix `" ++ t ++
    "` must be a non-empty string of letters, digits and underscores."

/-- Reads a suffix. -/
def readSuffix : Setting → Checked Text
  | .text t => if isSuffix t then .accepted t else .issue (.refused (suffixReason t))
  | _ => .issue .notText

/-- Reads a path, which is taken from a directory if it is relative. -/
def readPath (directory : AbsolutePath) : Setting → Checked AbsolutePath
  | .text t =>
      match PathText.resolve directory t with
      | .ok path => .accepted path
      | .error failure => .issue (.refused failure.message)
  | _ => .stopped .wrongKind

/-- Reads a list of paths. -/
def readPaths (directory : AbsolutePath) : Setting → Checked (List AbsolutePath)
  | .list settings => Checked.indexed (settings.map (readPath directory))
  | _ => .issue .notList

/-- Reads an option, if it is set. -/
def readOption (entries : Keyed Setting) (name : Text) (read : Setting → Checked α) :
    Checked (Option α) :=
  match entries.get? name with
  | some setting => ((read setting).within (.key name)).map some
  | .none => .accepted .none

/-- Refuses all names but the known ones. -/
def refuseOthers (known : List Text) (entries : Keyed Setting) : Checked Unit :=
  (Checked.all <| entries.map fun (name, _) =>
    if known.contains name then .accepted ()
    else (Checked.issue .unknownKey).within (.key name)).map fun _ => ()

/-- Reads the options of the generator. -/
def readGenerator (directory : AbsolutePath) : Setting → Checked GeneratorOptions
  | .table entries =>
      let output := readOption entries "output" (readPath directory)
      let suffix := readOption entries "local_suffix" readSuffix
      let others := refuseOthers ["output", "local_suffix"] entries
      ((output.map fun output suffix _ => GeneratorOptions.mk output suffix).apply suffix).apply
        others
  | _ => .issue .notModel

/-- Reads options.  Relative paths are taken from a directory. -/
def read (directory : AbsolutePath) : Setting → Checked Options
  | .table entries =>
      let subconfigs := readOption entries "subconfigs" (readPaths directory)
      let generator := readOption entries "generator" (readGenerator directory)
      let others := refuseOthers ["subconfigs", "generator"] entries
      ((subconfigs.map fun subconfigs generator _ => Options.mk subconfigs generator).apply
        generator).apply others
  | _ => .issue .notModel

/-!
## Removing options
-/

/-- Something that a path of keys can lead to. -/
inductive Spot where
  | all
  | generator
  /-- A table that is not there. -/
  | nowhere
  | subconfigs
  | value

/-- One step on a path of keys.  Only tables can be stepped into. -/
def step (options : Options) (key : Text) : Spot → Except Fault Spot
  | .all =>
      if key = "generator" then
        .ok (if options.generator.isSome then .generator else .nowhere)
      else if key = "subconfigs" then
        .ok (if options.subconfigs.isSome then .subconfigs else .nowhere)
      else .ok .nowhere
  | .generator =>
      let isSet := (options.generator.map fun generator =>
        (key = "output" && generator.output.isSome) ||
          (key = "local_suffix" && generator.localSuffix.isSome)).getD false
      .ok (if isSet then .value else .nowhere)
  | .nowhere => .ok .nowhere
  | .subconfigs => .error .noMember
  | .value => .error .noMember

/-- Removes the option under a key of a table. -/
def removeAt (options : Options) (key : Text) : Spot → Except Fault Options
  | .all =>
      if key = "generator" then .ok { options with generator := .none }
      else if key = "subconfigs" then .ok { options with subconfigs := .none }
      else .ok options
  | .generator =>
      .ok { options with
        generator := options.generator.map fun generator =>
          if key = "output" then { generator with output := .none }
          else if key = "local_suffix" then { generator with localSuffix := .none }
          else generator }
  | .nowhere => .ok options
  | .subconfigs => .error .wrongKind
  | .value => .error .noMember

/-- Removes the option that a path of keys leads to. -/
def remove (options : Options) (path : List Text) : Except Fault Options := do
  let spot ← path.dropLast.foldlM (fun spot key => options.step key spot) .all
  match path.getLast? with
  | some key => options.removeAt key spot
  | .none => .error .noElement

/-- Removes options one after another, up to the first path that leads nowhere
an option could be. -/
def removeAll : Options → List (List Text) → Options × Option Fault
  | options, [] => (options, .none)
  | options, path :: paths =>
      match options.remove path with
      | .ok options => removeAll options paths
      | .error fault => (options, some fault)

/-!
## Comparing options
-/

/-- What became of an option. -/
inductive Change (α : Type) where
  | kept
  | removed
  | set (value : α)
  deriving DecidableEq

namespace Change

/-- What became of an option with two values. -/
def between [DecidableEq α] : (old new : Option α) → Change α
  | some _, .none => .removed
  | .none, .none => .kept
  | .none, some new => .set new
  | some old, some new => if old = new then .kept else .set new

end Change

/-- What became of the options of the generator. -/
structure GeneratorChanges where
  output : Change AbsolutePath
  localSuffix : Change Text
  deriving DecidableEq

/-- What became of a group of options that can be there or not. -/
inductive GroupChange where
  | kept
  | removed
  | added (options : GeneratorOptions)
  | changed (changes : GeneratorChanges)
  deriving DecidableEq

/-- What became of the options. -/
structure Changes where
  subconfigs : Change (List AbsolutePath)
  generator : GroupChange
  deriving DecidableEq

/-- What changed between two states of the options of the generator. -/
def generatorChanges : (old new : Option GeneratorOptions) → GroupChange
  | some _, .none => .removed
  | .none, .none => .kept
  | .none, some new => .added new
  | some old, some new =>
      let changes : GeneratorChanges :=
        ⟨.between old.output new.output, .between old.localSuffix new.localSuffix⟩
      if changes = ⟨.kept, .kept⟩ then .kept else .changed changes

/-- What changed between two states of the options. -/
def changes (old new : Options) : Changes :=
  ⟨.between old.subconfigs new.subconfigs, generatorChanges old.generator new.generator⟩

/-!
## Options as documents
-/

/-- A path as a node. -/
def pathNode (path : AbsolutePath) : Json.Node :=
  .text path.toText

/-- A list of paths as a node. -/
def pathsNode (paths : List AbsolutePath) : Json.Node :=
  .array (paths.map pathNode)

/-- The options of the generator that are set. -/
def generatorNode (options : GeneratorOptions) : Json.Node :=
  .object <|
    (options.output.map fun path => (("output" : Text), pathNode path)).toList ++
      (options.localSuffix.map fun suffix => (("local_suffix" : Text), .text suffix)).toList

/-- The options that are set. -/
def toNode (options : Options) : Json.Node :=
  .object <|
    (options.subconfigs.map fun paths => (("subconfigs" : Text), pathsNode paths)).toList ++
      (options.generator.map fun generator =>
        (("generator" : Text), generatorNode generator)).toList

/-- A change under its name, if there was one. -/
def changeMembers (name : Text) (node : α → Json.Node) : Change α → List (Text × Json.Node)
  | .kept => []
  | .removed => [(name, .null)]
  | .set value => [(name, node value)]

/-- The changes of a group under its name, if there were any. -/
def groupMembers (name : Text) : GroupChange → List (Text × Json.Node)
  | .kept => []
  | .removed => [(name, .null)]
  | .added options => [(name, generatorNode options)]
  | .changed changes =>
      [(name, .object
        (changeMembers "output" pathNode changes.output ++
          changeMembers "local_suffix" .text changes.localSuffix))]

/-- The changes of options, where null stands for a removed one. -/
def changesNode (changes : Changes) : Json.Node :=
  .object (changeMembers "subconfigs" pathsNode changes.subconfigs ++
    groupMembers "generator" changes.generator)

end Options

end ContractBindings
