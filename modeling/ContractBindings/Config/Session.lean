import ContractBindings.Config.Memory
import ContractBindings.Config.State

namespace ContractBindings

/-!
# Configurations at work

A program has its configuration twice: as a table in its memory, which it hands out and
changes in place, and as a model that was accepted the last time, which knows what was set
and what everything else has by default.  Files are merged into a copy of the table, from
the directory of each file, and the copy takes the place of the table only in the end.
-/

/-- Options that were accepted, those that were set and the values of all. -/
structure AcceptedOptions where
  given : Options
  subconfigs : List AbsolutePath
  output : AbsolutePath
  localSuffix : Text

namespace Options

/-- The entry of an option, if it is set. -/
def entry (name : Text) (write : α → Setting) (option : Option α) : Keyed Setting :=
  (option.map fun a => (name, write a)).toList

/-- A path as a setting. -/
def pathSetting (path : AbsolutePath) : Setting :=
  .text path.toText

/-- Paths as a setting. -/
def pathsSetting (paths : List AbsolutePath) : Setting :=
  .list (paths.map pathSetting)

/-- The options of the generator as a setting. -/
def generatorSetting (options : GeneratorOptions) : Setting :=
  .table
    (entry "output" pathSetting options.output ++ entry "local_suffix" .text options.localSuffix)

/-- The options that are set as a setting. -/
def toSetting (options : Options) : Setting :=
  .table
    (entry "subconfigs" pathsSetting options.subconfigs ++
      entry "generator" generatorSetting options.generator)

end Options

namespace AcceptedOptions

/-- The options that are set, and the defaults of the others in a directory. -/
def complete (directory : AbsolutePath) (given : Options) : AcceptedOptions :=
  ⟨given, given.subconfigs.getD [], given.output directory, given.localSuffix⟩

/-- Accepts a setting in a directory. -/
def accept (directory : AbsolutePath) (setting : Setting) :
    Except ConfigFailure AcceptedOptions :=
  (ConfigFailure.ofChecked (Options.read directory setting)).map (complete directory)

/-- All options, whether they were set or not. -/
def all (accepted : AcceptedOptions) : Options :=
  ⟨some accepted.subconfigs, some ⟨some accepted.output, some accepted.localSuffix⟩⟩

end AcceptedOptions

/-!
## Loading files
-/

/-- What a program has and knows while it loads files. -/
structure Descent where
  memory : Memory
  /-- The directory that the program works in. -/
  directory : AbsolutePath
  /-- Where the options are collected. -/
  target : Nat
  loaded : List AbsolutePath
  /-- Which file names which. -/
  links : List (AbsolutePath × AbsolutePath)
  logs : List LogRecord

namespace Descent

/-- What the files have led to so far. -/
def toLoading (descent : Descent) : Config.Loading :=
  ⟨descent.memory.read descent.target, descent.loaded, descent.links, descent.logs⟩

/-- Does something in another directory and comes back, whether it fails or not. -/
def inside (directory : AbsolutePath) (act : Descent → Descent × Option ConfigFailure)
    (descent : Descent) : Descent × Option ConfigFailure :=
  let (after, failure?) := act { descent with directory }
  ({ after with directory := descent.directory }, failure?)

/-- Does one thing after another, up to the first that fails. -/
def each (act : AbsolutePath → Descent → Descent × Option ConfigFailure) :
    List AbsolutePath → Descent → Descent × Option ConfigFailure
  | [], descent => (descent, none)
  | path :: paths, descent =>
      match act path descent with
      | (descent, some failure) => (descent, some failure)
      | (descent, none) => each act paths descent

/-- Adds a file, and the link to it from the file that names it. -/
def visit (descent : Descent) (parent : Option AbsolutePath) (path : AbsolutePath) : Descent :=
  let visited := descent.toLoading.visit parent path
  { descent with loaded := visited.loaded, links := visited.links }

/-- Merges options into those that are collected. -/
def merge (descent : Descent) (options : Options) : Descent :=
  let merged := (descent.memory.read descent.target).merge options
  { descent with memory := descent.memory.write descent.target merged }

/-- Takes the options of a file, unless files name each other in a circle. -/
def takeOptions (descent : Descent) (entries : Keyed Setting) :
    Except ConfigFailure (Descent × List AbsolutePath) := do
  let cycles := Config.Loading.onCycles descent.links
  if ! cycles.isEmpty then .error (.cycle cycles)
  let accepted ← AcceptedOptions.accept descent.directory (.table entries)
  return (descent.merge accepted.given, accepted.subconfigs)

/-- Loads a file in its directory, and then the files that it names.  The fuel bounds the
length of a chain of files that name each other. -/
def loadFile (files : FileTree) : (fuel : Nat) → (parent : Option AbsolutePath) →
    (path : AbsolutePath) → Descent → Descent × Option ConfigFailure
  | 0, _, _, descent => (descent, none)
  | fuel + 1, parent, path, descent =>
      match files.read? path with
      | none =>
          if files.isRefused path then (descent, some (.fault .longName))
          else
            ({ descent with logs := descent.logs ++ [Config.Loading.missing parent path] }, none)
      | some text =>
          descent.inside path.parent fun descent =>
            match Toml.read text with
            | .error .malformed => (descent, some .malformedFile)
            | .error .longInteger => (descent, some (.fault .badValue))
            | .error .tooDeep => (descent, some (.fault .tooNested))
            | .ok entries =>
                let descent := descent.visit parent path
                match descent.takeOptions entries with
                | .error failure => (descent, some failure)
                | .ok (descent, subconfigs) =>
                    each (loadFile files fuel (some path)) subconfigs descent

end Descent

/-!
## Sessions
-/

/-- A program with a configuration. -/
structure Session where
  project : AbsolutePath
  /-- The file with the options of the user, as the environment gives it. -/
  globalPath : Text
  /-- The file with the options of the project. -/
  localPath : AbsolutePath
  memory : Memory
  /-- The directory that the program works in. -/
  directory : AbsolutePath
  /-- Where the options are kept. -/
  stored : Nat
  /-- The options as they were last accepted. -/
  accepted : AcceptedOptions
  loaded : List AbsolutePath

namespace Session

/-- The options as they are handed out. -/
def toOptions (session : Session) : Options :=
  session.memory.read session.stored

/-- The configuration of a program. -/
def toConfig (session : Session) : Config :=
  ⟨session.project, session.globalPath, session.localPath, session.toOptions,
    session.accepted.given, session.loaded⟩

/-- A configuration with nothing but defaults, which are stored as if they were set. -/
def reset (session : Session) : Session :=
  let accepted := AcceptedOptions.complete session.project .none
  let (memory, stored) := session.memory.store accepted.all
  { session with memory, stored, accepted, loaded := [] }

/-- A new configuration of a project. -/
def make (surroundings : Surroundings) (localPath project : Option Text) :
    Except ConfigFailure Session := do
  let config ← Config.make surroundings localPath project
  let session : Session :=
    { project := config.project
      globalPath := config.globalPath
      localPath := config.localPath
      memory := .empty
      directory := surroundings.directory
      stored := 0
      accepted := .complete config.project .none
      loaded := [] }
  return session.reset

/-- A new configuration of a project with the given options. -/
def ofSetting (surroundings : Surroundings) (setting : Setting) (project : Option Text) :
    Except ConfigFailure Session := do
  let session ← make surroundings none project
  let accepted ← AcceptedOptions.accept session.project setting
  let (memory, stored) := session.memory.store accepted.given
  return { session with memory, stored, accepted }

/-- Takes options from the file that a path text leads to, and from the files that it names.
They are collected in a copy of those that are stored, which is kept if it is accepted. -/
def load (files : FileTree) (session : Session) (t : Text) :
    Session × Option ConfigFailure × List LogRecord :=
  let (memory, target) := session.memory.store session.toOptions
  match PathText.resolve session.directory t with
  | .error failure => ({ session with memory }, some (.fault failure.fault), [])
  | .ok path =>
      let start : Descent := ⟨memory, session.directory, target, [], [], []⟩
      let (descent, failure?) := start.loadFile files (files.files.length + 2) none path
      let session := { session with memory := descent.memory, directory := descent.directory }
      match failure? with
      | some failure => (session, some failure, descent.logs)
      | none =>
          let options := session.memory.read target
          match AcceptedOptions.accept session.project options.toSetting with
          | .error failure => (session, some failure, descent.logs)
          | .ok accepted =>
              ({ session with
                stored := target
                accepted
                loaded := Config.addPaths session.loaded descent.loaded }, none, descent.logs)

/-- Takes the options of the user and then those of the project, after the defaults. -/
def loadConfigs (files : FileTree) (session : Session) :
    Session × Option ConfigFailure × List LogRecord :=
  match session.reset.load files session.globalPath with
  | (session, some failure, logs) => (session, some failure, logs)
  | (session, none, logs) =>
      let (session, failure?, more) := session.load files session.localPath.toText
      (session, failure?, logs ++ more)

/-- Takes options from a setting and removes others, in the table that is stored.  The
result says what changed. -/
def update (session : Session) (setting : Setting) (removed : List (List Text)) :
    Session × Except ConfigFailure Options.Changes :=
  match AcceptedOptions.accept session.project setting with
  | .error failure => (session, .error failure)
  | .ok new =>
      let original := session.toOptions
      let (options, fault?) := (original.merge new.given).removeAll removed
      let session := { session with memory := session.memory.write session.stored options }
      match fault? with
      | some fault => (session, .error (.fault fault))
      | none =>
          match AcceptedOptions.accept session.project session.toOptions.toSetting with
          | .error failure => (session, .error failure)
          | .ok accepted =>
              ({ session with accepted }, .ok (Options.changes original accepted.given))

/-- The options that were set as a document on one line.  No document can have a lone
surrogate in it. -/
def text (session : Session) : Except Fault Text :=
  let t := session.accepted.given.toNode.compact false
  if Text.isScalar t then .ok t else .error .unencodable

/-- The configuration as an abbreviated literal. -/
def literal (session : Session) : Text :=
  session.toConfig.literal

end Session

end ContractBindings
