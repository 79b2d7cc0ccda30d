import ContractBindings.Config.FileTree
import ContractBindings.Config.Literal
import ContractBindings.Log
import ContractBindings.Toml.Reader

namespace ContractBindings

/-!
# Configurations

A configuration starts from defaults and takes options from files, which can
name further files, and from updates.  It keeps the options twice: as they were
stored and as they were last accepted.  The two differ after an update that
stored its options and then failed.
-/

/-- What a configuration finds around it. -/
structure Surroundings where
  files : FileTree
  /-- The variables of the environment. -/
  environment : Keyed Text
  platform : Text
  /-- The home directory of the account of the user. -/
  accountHome : Text
  /-- The directory that relative paths are taken from. -/
  directory : AbsolutePath

/-- Why a configuration was not made or changed. -/
inductive ConfigFailure where
  | issues (issues : List Issue)
  | fault (fault : Fault)
  /-- A file is not what the notation allows. -/
  | malformedFile
  /-- Files name each other in a circle. -/
  | cycle (paths : List AbsolutePath)
  | unsupportedPlatform (name : Text)
  | noProject (path : AbsolutePath)

namespace ConfigFailure

/-- The message for files that name each other in a circle. -/
def cycleMessage : Text :=
  "Found cyclic config subconfigs:"

/-- The message for a platform without a known place for options. -/
def platformMessage (name : Text) : Text :=
  "Platform `" ++ name ++ "` is not supported."

/-- The message for a project that is no directory. -/
def projectMessage (path : AbsolutePath) : Text :=
  "Project root path '" ++ path.toText ++ "' is not a directory."

/-- The failure of a reading that is not accepted. -/
def ofChecked : Checked α → Except ConfigFailure α
  | .accepted value => .ok value
  | .refused found => .error (.issues found)
  | .stopped found => .error (.fault found)

end ConfigFailure

/-- A configuration. -/
structure Config where
  project : AbsolutePath
  /-- The file with the options of the user, as the environment gives it. -/
  globalPath : Text
  /-- The file with the options of the project. -/
  localPath : AbsolutePath
  /-- The options as they were stored. -/
  stored : Options
  /-- The options as they were last accepted. -/
  accepted : Options
  loaded : List AbsolutePath

namespace Config

/-!
## The places of files
-/

/-- A path text below a directory. -/
def below (directory : Text) (rest : Text) : Text :=
  Text.tidyPath (directory ++ "/" ++ rest)

/-- The home directory of the user, which the environment can move.  A text with
a tilde in front names no directory. -/
def home (surroundings : Surroundings) : Except Fault Text :=
  let directory := (surroundings.environment.get? "HOME").getD surroundings.accountHome
  match Text.trimEnd directory (· = '/') with
  | [] => .ok "/"
  | directory => if Text.startsWith directory "~" then .error .noHome else .ok directory

/-- The file with the options of the user.  Its place depends on the platform
unless the environment names a directory for such files. -/
def globalPathOf (surroundings : Surroundings) : Except ConfigFailure Text :=
  match surroundings.environment.get? "XDG_CONFIG_HOME" with
  | some [] => .ok "abitypes/config.toml"
  | some directory => .ok (below directory "abitypes/config.toml")
  | none =>
      if surroundings.platform = "Linux" ∨ surroundings.platform = "Darwin" then
        ((home surroundings).map fun directory =>
          below directory ".config/abitypes/config.toml").mapError .fault
      else if surroundings.platform = "Windows" then
        match surroundings.environment.get? "LOCALAPPDATA" with
        | some [] => .ok "abitypes/config.toml"
        | some directory => .ok (below directory "abitypes/config.toml")
        | none => .error (.fault .missingKey)
      else .error (.unsupportedPlatform surroundings.platform)

/-- The path that a text stands for. -/
def findPath (surroundings : Surroundings) (t : Text) : Except ConfigFailure AbsolutePath :=
  (PathText.resolve surroundings.directory t).mapError fun failure => .fault failure.fault

/-- A new configuration of a project.  The project is the directory that
relative paths are taken from, unless another one is given. -/
def make (surroundings : Surroundings) (localPath project : Option Text) :
    Except ConfigFailure Config := do
  let globalPath ← globalPathOf surroundings
  let project ← match project with
    | some t => findPath surroundings t
    | none => .ok surroundings.directory
  let localPath ← match localPath with
    | some t => findPath surroundings t
    | none => .ok (project.child "abitypes.toml")
  if surroundings.files.isDirectory project then
    return ⟨project, globalPath, localPath, .defaults project, .none, []⟩
  else if surroundings.files.isRefused project then .error (.fault .longName)
  else .error (.noProject project)

/-- A new configuration of a project with the given options. -/
def ofSetting (surroundings : Surroundings) (setting : Setting) (project : Option Text) :
    Except ConfigFailure Config := do
  let config ← make surroundings none project
  let options ← ConfigFailure.ofChecked (Options.read config.project setting)
  return { config with stored := options, accepted := options }

/-!
## Loading files
-/

/-- What is known while files are being loaded. -/
structure Loading where
  options : Options
  loaded : List AbsolutePath
  /-- Which file names which. -/
  links : List (AbsolutePath × AbsolutePath)
  logs : List LogRecord

namespace Loading

/-- The files that can be reached over links from one of the given ones. -/
def reachable (links : List (AbsolutePath × AbsolutePath)) :
    (fuel : Nat) → (paths : List AbsolutePath) → List AbsolutePath
  | 0, paths => paths
  | fuel + 1, paths =>
      let next := (links.filter fun (source, target) =>
        paths.contains source && ! paths.contains target).map (·.2)
      if next.isEmpty then paths else reachable links fuel (paths ++ next.eraseDups)

/-- The files that can be reached from a file in one step or more. -/
def successors (links : List (AbsolutePath × AbsolutePath)) (path : AbsolutePath) :
    List AbsolutePath :=
  reachable links links.length ((links.filter (·.1 = path)).map (·.2)).eraseDups

/-- The files that lie on a circle of links. -/
def onCycles (links : List (AbsolutePath × AbsolutePath)) : List AbsolutePath :=
  ((links.map (·.1)).eraseDups).filter fun path => (successors links path).contains path

/-- Adds a file, and the link to it from the file that names it. -/
def visit (loading : Loading) (parent : Option AbsolutePath) (path : AbsolutePath) : Loading :=
  { loading with
    loaded := if loading.loaded.contains path then loading.loaded else loading.loaded ++ [path]
    links := (parent.map fun parent => (parent, path)).toList ++ loading.links }

/-- Tells that a file is not there.  This is worth a warning if another file
names it. -/
def missing (parent : Option AbsolutePath) (path : AbsolutePath) : LogRecord :=
  match parent with
  | none => ⟨.info, "Config file '" ++ path.toText ++ "' does not exist."⟩
  | some parent =>
      ⟨.warning, "Config file '" ++ path.toText ++ "' loaded from '" ++ parent.toText ++
        "' does not exist."⟩

/-- Takes the options of a file, whose relative paths are taken from its
directory. -/
def takeOptions (loading : Loading) (path : AbsolutePath) (entries : Keyed Setting) :
    Except ConfigFailure (Loading × List AbsolutePath) := do
  let cycles := onCycles loading.links
  if ! cycles.isEmpty then .error (.cycle cycles)
  let options ← ConfigFailure.ofChecked (Options.read path.parent (.table entries))
  return ({ loading with options := loading.options.merge options },
    options.subconfigs.getD [])

mutual

/-- Loads a file and the files that it names.  The fuel bounds the length of a
chain of files that name each other. -/
def loadFile (files : FileTree) : (fuel : Nat) → (parent : Option AbsolutePath) →
    (path : AbsolutePath) → Loading → Loading × Option ConfigFailure
  | 0, _, _, loading => (loading, none)
  | fuel + 1, parent, path, loading =>
      match files.read? path with
      | none =>
          if files.isRefused path then (loading, some (.fault .longName))
          else ({ loading with logs := loading.logs ++ [missing parent path] }, none)
      | some text =>
          match Toml.read text with
          | .error .malformed => (loading, some .malformedFile)
          | .error .longInteger => (loading, some (.fault .badValue))
          | .error .tooDeep => (loading, some (.fault .tooNested))
          | .ok entries =>
              let loading := loading.visit parent path
              match loading.takeOptions path entries with
              | .error failure => (loading, some failure)
              | .ok (loading, subconfigs) => loadFiles files fuel path subconfigs loading

/-- Loads the files that a file names, one after another. -/
def loadFiles (files : FileTree) : (fuel : Nat) → (parent : AbsolutePath) →
    (paths : List AbsolutePath) → Loading → Loading × Option ConfigFailure
  | _, _, [], loading => (loading, none)
  | fuel, parent, path :: paths, loading =>
      match loadFile files fuel (some parent) path loading with
      | (loading, some failure) => (loading, some failure)
      | (loading, none) => loadFiles files fuel parent paths loading

end

end Loading

/-- Adds paths that are not there yet. -/
def addPaths (paths new : List AbsolutePath) : List AbsolutePath :=
  new.foldl (fun known path => if known.contains path then known else known ++ [path]) paths

/-- Takes options from a file and the files that it names.  If this fails the
configuration stays as it is. -/
def load (surroundings : Surroundings) (config : Config) (path : AbsolutePath) :
    Config × Option ConfigFailure × List LogRecord :=
  let fuel := surroundings.files.files.length + 2
  match Loading.loadFile surroundings.files fuel none path ⟨config.stored, [], [], []⟩ with
  | (loading, some failure) => (config, some failure, loading.logs)
  | (loading, none) =>
      ({ config with
        stored := loading.options
        accepted := loading.options
        loaded := addPaths config.loaded loading.loaded }, none, loading.logs)

/-- Takes options from the file that a path text leads to, and the files that it
names. -/
def loadText (surroundings : Surroundings) (config : Config) (t : Text) :
    Config × Option ConfigFailure × List LogRecord :=
  match findPath surroundings t with
  | .ok path => config.load surroundings path
  | .error failure => (config, some failure, [])

/-- A configuration with nothing but defaults. -/
def reset (config : Config) : Config :=
  { config with stored := .defaults config.project, accepted := .none, loaded := [] }

/-- Takes the options of the user and then those of the project, after the
defaults. -/
def loadConfigs (surroundings : Surroundings) (config : Config) :
    Config × Option ConfigFailure × List LogRecord :=
  let globalPath := surroundings.directory.resolve config.globalPath
  match config.reset.load surroundings globalPath with
  | (config, some failure, logs) => (config, some failure, logs)
  | (config, none, logs) =>
      let (config, failure, more) := config.load surroundings config.localPath
      (config, failure, logs ++ more)

/-!
## Updating
-/

/-- Takes options from a setting and removes others.  The result says what
changed. -/
def update (config : Config) (setting : Setting) (removed : List (List Text)) :
    Config × Except ConfigFailure Options.Changes :=
  match ConfigFailure.ofChecked (Options.read config.project setting) with
  | .error failure => (config, .error failure)
  | .ok options =>
      match (config.stored.merge options).removeAll removed with
      | (stored, some fault) => ({ config with stored }, .error (.fault fault))
      | (stored, none) =>
          ({ config with stored, accepted := stored },
            .ok (Options.changes config.stored stored))

/-!
## Views
-/

/-- Where the generated module is written. -/
def output (config : Config) : AbsolutePath :=
  config.accepted.output config.project

/-- What is appended to the names of methods that execute calls. -/
def localSuffix (config : Config) : Text :=
  config.accepted.localSuffix

/-- The accepted options as a document. -/
def toNode (config : Config) : Json.Node :=
  config.accepted.toNode

/-- The configuration as an abbreviated literal. -/
def literal (config : Config) : Text :=
  "AbiTypesConfig.fromdict(" ++ config.stored.literal ++ ", project_root_path=" ++
    config.project.literal ++ ")"

end Config

end ContractBindings
