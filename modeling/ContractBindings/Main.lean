import ContractBindings.CommandLine.Run

namespace ContractBindings

/-!
# The program

The program looks at every place that its arguments, its environment and the
options it finds can lead to, runs the command line on what is there and
carries out the outcome.  Everything in between is decided by
`CommandLine.run`.
-/

namespace Program

/-- The variables of the environment that a run depends on. -/
def variableNames : List String :=
  ["HOME", "XDG_CONFIG_HOME", "LOCALAPPDATA", "ABITYPES_CONFIG"]

/-- The texts in an argument that may be paths: all of it, what follows an
equals sign and what follows a short option. -/
def pathTexts (argument : Text) : List Text :=
  [argument, argument.drop 2] ++ (Text.after? argument "=").toList

/-- The paths that a file with options names. -/
def namedPaths (path : AbsolutePath) (text : Text) : List AbsolutePath :=
  match Toml.read text with
  | .error _ => []
  | .ok entries =>
      match Options.read path.parent (.table entries) with
      | .accepted options =>
          options.subconfigs.getD [] ++ (options.generator.bind (·.output)).toList
      | _ => []

/-- The places that are known to matter before any file was read. -/
def firstPlaces (surroundings : Surroundings) (arguments : List Text) : List AbsolutePath :=
  let globalPath := match Config.globalPathOf surroundings with
    | .ok path => [path]
    | .error _ => []
  let localPaths : List Text := ["abitypes.toml", "contracts.py"]
  let texts := globalPath ++ localPaths ++ surroundings.environment.map (·.2) ++
    arguments.flatMap pathTexts
  texts.flatMap (FileTree.placesToward surroundings.directory)

/-- What became of a run that broke off. -/
def explain : CommandLine.Breakdown → Text
  | .config (.issues _) => "The options are not valid."
  | .config (.fault _) => "The options cannot be read."
  | .config .malformedFile => "A file with options is malformed."
  | .config (.cycle paths) =>
      ConfigFailure.cycleMessage ++ "\n" ++ Text.join "\n" (paths.map (·.toText))
  | .config (.unsupportedPlatform name) => ConfigFailure.platformMessage name
  | .config (.noProject path) => ConfigFailure.projectMessage path
  | .issues _ => "The compiler output is not valid."
  | .fault _ => "The compiler output cannot be read."
  | .noFreeName => "A method has no free name."
  | .unbalancedMarkup => "A message has a closing tag without an opening one."
  | .directoryOccupied => "A file stands in the place of the output directory."
  | .fileOnTheWay => "A file stands on the way to the output directory."
  | .fileOccupied => "A directory stands in the place of the output."

/-- The name of a place for the file system. -/
def fileName (path : AbsolutePath) : String :=
  path.toText.toString

/-- Adds what is on the disk at a place. -/
def look (tree : FileTree) (path : AbsolutePath) : IO FileTree := do
  if ← ((← IO.currentDir) / fileName path).isDir then
    return { tree with directories := path :: tree.directories }
  try
    let bytes ← IO.FS.readBinFile (fileName path)
    return tree.write path (Text.ofOctets bytes.toList)
  catch _ => return tree

/-- The most places that are looked at. -/
def placeLimit : Nat := 100000

/-- Adds what is on the disk at the given places and at those that the files
among them name.  The fuel bounds the places. -/
def survey : (fuel : Nat) → (seen : List AbsolutePath) → FileTree →
    List AbsolutePath → IO FileTree
  | 0, _, tree, _ => return tree
  | _, _, tree, [] => return tree
  | fuel + 1, seen, tree, path :: paths =>
      if seen.contains path then survey fuel seen tree paths
      else do
        let tree ← look tree path
        let named := ((tree.read? path).map (namedPaths path)).getD []
        let places := named.flatMap fun next => FileTree.placesToward ⟨[]⟩ next.toText
        survey fuel (path :: seen) tree (places ++ paths)

/-- The variables of the environment that have values. -/
def readVariables : List String → IO (Keyed Text)
  | [] => return []
  | name :: names => do
      let own : Keyed Text := match ← IO.getEnv name with
        | some value => [(Text.ofString name, Text.ofString value)]
        | none => []
      return own ++ (← readVariables names)

/-- Leaves a file behind, and the directories around it. -/
def write (written : CommandLine.Written) : IO Unit := do
  IO.FS.createDirAll (fileName written.path.parent)
  IO.FS.writeBinFile (fileName written.path) ⟨(Text.utf8 written.content).toArray⟩

/-- Runs a command line where the program was started. -/
def run (arguments : List Text) : IO CommandLine.Outcome := do
  let directory := AbsolutePath.resolve ⟨[]⟩ (Text.ofString (toString (← IO.currentDir)))
  let environment ← readVariables variableNames
  let nothing : FileTree := ⟨[], []⟩
  let surroundings : Surroundings := ⟨nothing, environment, "Linux", "/", directory⟩
  let files ← survey placeLimit [] nothing (firstPlaces surroundings arguments)
  return CommandLine.run { surroundings with files } arguments

end Program

end ContractBindings

/-- Runs the command line of the program. -/
def main (arguments : List String) : IO UInt32 := do
  let outcome ← ContractBindings.Program.run (arguments.map ContractBindings.Text.ofString)
  IO.print outcome.printed.toString
  if let some written := outcome.written then
    ContractBindings.Program.write written
  if let some breakdown := outcome.breakdown then
    IO.eprintln (ContractBindings.Program.explain breakdown).toString
  return outcome.exitCode.toUInt32
