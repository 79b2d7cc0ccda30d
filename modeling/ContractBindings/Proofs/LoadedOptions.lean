import ContractBindings.Proofs.FileCircles
import ContractBindings.Proofs.Steps

namespace ContractBindings

open Relation

/-!
# Options that loading leaves

Of several files that set an option, the one that is visited last decides, and an option
that no file sets stays as it was.

Main statement: where sound files list each other in no circle, loading takes the options
that the files set in the order of their visits, and loading the files of a configuration
does the same to it as to a new one.
-/

namespace Options

/-!
## Single options
-/

/-- The path of the generated module, if it is set. -/
def setOutput (options : Options) : Option AbsolutePath :=
  options.generator.bind (·.output)

/-- What is appended to the names of methods, if it is set. -/
def setSuffix (options : Options) : Option Text :=
  options.generator.bind (·.localSuffix)

theorem merge_subconfigs
    (old new : Options) :
    (old.merge new).subconfigs = new.subconfigs.or old.subconfigs := by
  rfl

theorem merge_setOutput
    (old new : Options) :
    (old.merge new).setOutput = new.setOutput.or old.setOutput := by
  rcases old with ⟨_, _ | ⟨_, _⟩⟩ <;> rcases new with ⟨_, _ | ⟨_ | _, _⟩⟩ <;> rfl

theorem merge_setSuffix
    (old new : Options) :
    (old.merge new).setSuffix = new.setSuffix.or old.setSuffix := by
  rcases old with ⟨_, _ | ⟨_, _⟩⟩ <;> rcases new with ⟨_, _ | ⟨_, _ | _⟩⟩ <;> rfl

end Options

namespace FileTree

/-- What the last of some files that sets an option sets it to. -/
def lastSet (tree : FileTree) (option : Options → Option α) (order : List AbsolutePath) :
    Option α :=
  order.reverse.findSome? fun path => option (tree.written path)

variable {tree : FileTree}

theorem lastSet_cons
    (option : Options → Option α)
    (path : AbsolutePath)
    (order : List AbsolutePath) :
    tree.lastSet option (path :: order) =
      (tree.lastSet option order).or (option (tree.written path)) := by
  rw [lastSet, List.reverse_cons, List.findSome?_append, List.findSome?_singleton]
  rfl

/-- Of files whose options are merged one after another, the last one that sets an option
decides. -/
theorem foldl_merge
    {option : Options → Option α}
    (ofMerge : ∀ old new, option (old.merge new) = (option new).or (option old))
    (order : List AbsolutePath)
    (old : Options) :
    option (order.foldl (fun options path => options.merge (tree.written path)) old) =
      (tree.lastSet option order).or (option old) := by
  induction order generalizing old with
  | nil =>
      rfl
  | cons first order inductionHypothesis =>
      rw [List.foldl_cons, inductionHypothesis, ofMerge, lastSet_cons, Option.or_assoc]

end FileTree

namespace Config

/-- Paths are added to those that are there. -/
theorem mem_addPaths_iff
    {paths new : List AbsolutePath}
    {path : AbsolutePath} :
    path ∈ addPaths paths new ↔ path ∈ paths ∨ path ∈ new := by
  induction new generalizing paths with
  | nil =>
      simp [addPaths]
  | cons first new inductionHypothesis =>
      rw [addPaths, List.foldl_cons, ← addPaths, inductionHypothesis, mem_added_iff,
        List.mem_cons, or_assoc]

/-!
## One file and those that it lists
-/

/-- What a configuration takes from a file and those that it lists. -/
structure Takes (tree : FileTree) (path : AbsolutePath) (order : List AbsolutePath)
    (old new : Config) : Prop where
  visits : tree.Visits [path] order
  stored :
    new.stored = order.foldl (fun options file => options.merge (tree.written file)) old.stored
  accepted : new.accepted = new.stored
  subconfigs :
    new.stored.subconfigs = (tree.lastSet Options.subconfigs order).or old.stored.subconfigs
  output :
    new.stored.setOutput = (tree.lastSet Options.setOutput order).or old.stored.setOutput
  localSuffix :
    new.stored.setSuffix = (tree.lastSet Options.setSuffix order).or old.stored.setSuffix
  loaded :
    ∀ file, file ∈ new.loaded ↔
      file ∈ old.loaded ∨ tree.isFile file = true ∧ ReflTransGen tree.Lists path file

/-- Sound files that list each other in no circle are all taken. -/
theorem takes_of_load
    {surroundings : Surroundings}
    {path : AbsolutePath}
    (sound : surroundings.files.IsSound path)
    (noCircle : ¬ surroundings.files.HasCircle path)
    (config : Config) :
    ∃ order loaded logs,
      config.load surroundings path = (loaded, none, logs) ∧
        Takes surroundings.files path order config loaded := by
  obtain ⟨after, failure?, walk, ofFuel⟩ := Loading.exists_walk sound config.stored
  obtain rfl : failure? = none := by
    cases failure? with
    | none =>
        rfl
    | some failure =>
        exact absurd (walk.hasCircle rfl) noCircle
  obtain ⟨order, visits, options, loaded⟩ := walk.visits rfl
  refine ⟨order, _, _, load_of_loaded (ofFuel _ (Nat.le_refl _)), visits, options, rfl, ?_, ?_,
    ?_, fun file => ?_⟩
  · rw [options]
    exact FileTree.foldl_merge Options.merge_subconfigs order _
  · rw [options]
    exact FileTree.foldl_merge Options.merge_setOutput order _
  · rw [options]
    exact FileTree.foldl_merge Options.merge_setSuffix order _
  · rw [mem_addPaths_iff, loaded, visits.mem_iff]
    simp

/-!
## The files of a configuration
-/

/-- Loads files one after another, up to the first that fails. -/
def loadEach (surroundings : Surroundings) :
    Config → List AbsolutePath → Config × Option ConfigFailure × List LogRecord
  | config, [] => (config, none, [])
  | config, path :: paths =>
      match config.load surroundings path with
      | (config, some failure, logs) => (config, some failure, logs)
      | (config, none, logs) =>
          let (config, failure?, more) := loadEach surroundings config paths
          (config, failure?, logs ++ more)

/-- Two configurations are of the same project and look for its files in the same places. -/
structure SamePlaces (first second : Config) : Prop where
  project : second.project = first.project
  globalPath : second.globalPath = first.globalPath
  localPath : second.localPath = first.localPath

namespace SamePlaces

theorem refl
    (config : Config) :
    SamePlaces config config :=
  ⟨rfl, rfl, rfl⟩

theorem trans
    {first second third : Config}
    (same : SamePlaces first second)
    (sameNext : SamePlaces second third) :
    SamePlaces first third :=
  ⟨sameNext.project.trans same.project, sameNext.globalPath.trans same.globalPath,
    sameNext.localPath.trans same.localPath⟩

theorem of_load
    (surroundings : Surroundings)
    (config : Config)
    (path : AbsolutePath) :
    SamePlaces config (config.load surroundings path).1 := by
  rw [load]
  split <;> exact ⟨rfl, rfl, rfl⟩

end SamePlaces

/-- The files of a configuration are loaded after everything else is forgotten. -/
theorem loadConfigs_eq_loadEach
    (surroundings : Surroundings)
    (config : Config) :
    config.loadConfigs surroundings =
      loadEach surroundings config.reset
        [surroundings.directory.resolve config.globalPath, config.localPath] := by
  have sameLocal := (SamePlaces.of_load surroundings config.reset
    (surroundings.directory.resolve config.globalPath)).localPath
  rw [loadConfigs, loadEach]
  revert sameLocal
  rcases config.reset.load surroundings (surroundings.directory.resolve config.globalPath) with
    ⟨loaded, _ | failure, logs⟩
  · intro (sameLocal : loaded.localPath = config.localPath)
    simp only [sameLocal, loadEach]
    rcases loaded.load surroundings config.localPath with ⟨last, _ | failure, more⟩ <;> simp
  · exact fun _ => rfl

/-- A new configuration has nothing but defaults. -/
theorem reset_of_make
    {surroundings : Surroundings}
    {localPath project : Option Text}
    {fresh : Config}
    (isMade : make surroundings localPath project = .ok fresh) :
    fresh.reset = fresh := by
  obtain ⟨globalPath, -, isMade⟩ := bind_eq_ok_iff.mp isMade
  rcases project with _ | t <;> rcases localPath with _ | u
  all_goals
    obtain ⟨projectPath, -, isMade⟩ := bind_eq_ok_iff.mp isMade
    obtain ⟨path, -, isMade⟩ := bind_eq_ok_iff.mp isMade
    split at isMade
    case isTrue =>
      cases isMade
      rfl
    case isFalse =>
      split at isMade <;> cases isMade

/-- What is forgotten of a configuration leaves the new one in the same places. -/
theorem SamePlaces.reset_eq
    {surroundings : Surroundings}
    {localPath project : Option Text}
    {fresh config : Config}
    (isMade : make surroundings localPath project = .ok fresh)
    (same : SamePlaces fresh config) :
    config.reset = fresh := by
  rw [← reset_of_make isMade, reset, reset, same.project, same.globalPath, same.localPath]

/-- Configurations of the same project that look for its files in the same places load the
same, whatever was done to one of them, if the other is new. -/
theorem loadConfigs_of_samePlaces
    {start : Surroundings}
    {localPath project : Option Text}
    {fresh config : Config}
    (isMade : make start localPath project = .ok fresh)
    (same : SamePlaces fresh config)
    (surroundings : Surroundings) :
    config.loadConfigs surroundings =
      loadEach surroundings fresh
        [surroundings.directory.resolve fresh.globalPath, fresh.localPath] := by
  rw [loadConfigs_eq_loadEach, same.reset_eq isMade, same.globalPath, same.localPath]

end Config

end ContractBindings
