import ContractBindings.Proofs.FailedLoads
import ContractBindings.Proofs.OptionsReadBack

namespace ContractBindings

/-!
# Sessions whose options are accepted again

All paths that a session knows are resolved, so options that were collected from files are
accepted as they are, and what a session does to its tables is what is told of configurations
without memory and directories.

Main statements: `Session.Occurs.isSettled`, and of settled sessions `toConfig_load`,
`toConfig_loadConfigs` and `toConfig_update`.
-/

namespace ConfigFailure

theorem ofChecked_eq_ok_iff
    {checked : Checked α}
    {a : α} :
    ofChecked checked = .ok a ↔ checked = .accepted a := by
  cases checked <;> simp [ofChecked]

end ConfigFailure

/-- Options that are accepted in a directory are proper. -/
theorem AcceptedOptions.isProper_of_accept
    {directory : AbsolutePath}
    {setting : Setting}
    {accepted : AcceptedOptions}
    (proper : directory.IsProper)
    (isAccepted : accept directory setting = .ok accepted) :
    accepted.given.IsProper := by
  obtain ⟨options, isRead, rfl⟩ := accept_eq_ok_iff.mp isAccepted
  exact Options.isProper_of_read proper (ConfigFailure.ofChecked_eq_ok_iff.mp isRead)

/-!
## Options that are collected
-/

namespace Config.Loading

variable {files : FileTree} {loading after : Loading} {path : AbsolutePath}

/-- What a file sets is proper, and so are the paths of the files that it lists. -/
theorem isProper_of_takeOptions
    (proper : loading.options.IsProper)
    (properPath : path.IsProper)
    {entries : Keyed Setting}
    {subconfigs : List AbsolutePath}
    (isTaken : loading.takeOptions path entries = .ok (after, subconfigs)) :
    after.options.IsProper ∧ ∀ listed ∈ subconfigs, listed.IsProper := by
  rw [takeOptions] at isTaken
  obtain ⟨-, isTaken⟩ := refuse_eq_ok_iff.mp isTaken
  obtain ⟨options, isRead, isAfter⟩ := bind_eq_ok_iff.mp isTaken
  cases isAfter
  have properNew : options.IsProper :=
    Options.isProper_of_read properPath.parent (ConfigFailure.ofChecked_eq_ok_iff.mp isRead)
  refine ⟨proper.merge properNew, fun listed isListed => ?_⟩
  cases isSet : options.subconfigs with
  | none =>
      rw [isSet] at isListed
      cases isListed
  | some paths =>
      rw [isSet] at isListed
      exact properNew.subconfigs paths isSet listed isListed

/-- If each file keeps options proper, so do files one after another. -/
theorem isProper_loadFiles
    {fuel : Nat}
    {parent : AbsolutePath}
    (ofEach :
      ∀ path loading, path.IsProper → loading.options.IsProper →
        (loadFile files fuel (some parent) path loading).1.options.IsProper)
    {paths : List AbsolutePath}
    (properPaths : ∀ path ∈ paths, path.IsProper)
    (proper : loading.options.IsProper) :
    (loadFiles files fuel parent paths loading).1.options.IsProper := by
  induction paths generalizing loading with
  | nil =>
      rw [loadFiles]
      exact proper
  | cons path paths inductionHypothesis =>
      obtain ⟨properPath, properOthers⟩ := List.forall_mem_cons.mp properPaths
      have ofFirst := ofEach path loading properPath proper
      rw [loadFiles]
      split
      case h_1 isLoaded =>
        rw [isLoaded] at ofFirst
        exact ofFirst
      case h_2 isLoaded =>
        rw [isLoaded] at ofFirst
        exact inductionHypothesis properOthers ofFirst

/-- Proper options stay so when a file is loaded, however far this comes. -/
theorem isProper_loadFile
    (files : FileTree)
    (fuel : Nat)
    (parent : Option AbsolutePath)
    (properPath : path.IsProper)
    (proper : loading.options.IsProper) :
    (loadFile files fuel parent path loading).1.options.IsProper := by
  induction fuel generalizing parent path loading with
  | zero =>
      rw [loadFile]
      exact proper
  | succ fuel inductionHypothesis =>
      rw [loadFile]
      split
      case h_1 =>
        split <;> exact proper
      case h_2 =>
        split
        case h_1 | h_2 | h_3 =>
          exact proper
        case h_4 entries isRead =>
          dsimp only
          split
          case h_1 =>
            exact proper
          case h_2 isTaken =>
            have properVisited : (loading.visit parent path).options.IsProper := proper
            obtain ⟨properAfter, properListed⟩ :=
              isProper_of_takeOptions properVisited properPath isTaken
            exact isProper_loadFiles
              (fun _ _ properPath proper => inductionHypothesis (some path) properPath proper)
              properListed properAfter

end Config.Loading

/-- The places of a new configuration are resolved. -/
theorem Config.isProper_of_make
    {surroundings : Surroundings}
    (proper : surroundings.directory.IsProper)
    {localPath project : Option Text}
    {config : Config}
    (isMade : make surroundings localPath project = .ok config) :
    config.project.IsProper ∧ config.localPath.IsProper := by
  have ofText : ∀ {t path}, findPath surroundings t = .ok path → path.IsProper :=
    fun found => AbsolutePath.isProper_of_resolve proper (mapError_eq_ok_iff.mp found)
  obtain ⟨globalPath, -, isMade⟩ := bind_eq_ok_iff.mp isMade
  rcases project with _ | t <;> rcases localPath with _ | u
  all_goals
    obtain ⟨projectPath, isProject, isMade⟩ := bind_eq_ok_iff.mp isMade
    obtain ⟨path, isLocal, isMade⟩ := bind_eq_ok_iff.mp isMade
    have arePlaces : config.project = projectPath ∧ config.localPath = path := by
      split at isMade
      case isTrue =>
        cases isMade
        exact ⟨rfl, rfl⟩
      case isFalse =>
        split at isMade <;> cases isMade
    rw [arePlaces.1, arePlaces.2]
  · cases isProject
    cases isLocal
    exact ⟨proper, proper.child (by decide)⟩
  · cases isProject
    exact ⟨proper, ofText isLocal⟩
  · cases isLocal
    exact ⟨ofText isProject, (ofText isProject).child (by decide)⟩
  · exact ⟨ofText isProject, ofText isLocal⟩

/-!
## Sessions that are settled
-/

namespace Session

variable {session : Session}

/-- All paths that a session knows are resolved. -/
structure IsSettled (session : Session) : Prop where
  sound : session.IsSound
  project : session.project.IsProper
  localPath : session.localPath.IsProper
  directory : session.directory.IsProper
  options : session.toOptions.IsProper

/-- What is accepted are the options that are stored. -/
def IsAgreed (session : Session) : Prop :=
  session.accepted = .complete session.project session.toOptions

/-- What a configuration that is not given anything stores are its defaults. -/
theorem toOptions_reset
    (sound : session.memory.IsSound) :
    session.reset.toOptions = .defaults session.project :=
  Memory.read_store sound _

namespace IsSettled

theorem reset
    (settled : session.IsSettled) :
    session.reset.IsSettled :=
  ⟨.reset settled.sound.memory, settled.project, settled.localPath, settled.directory,
    (toOptions_reset settled.sound.memory).symm ▸
      AcceptedOptions.isProper_all_complete settled.project⟩

theorem of_make
    {surroundings : Surroundings}
    (proper : surroundings.directory.IsProper)
    {localPath project : Option Text}
    (isMade : make surroundings localPath project = .ok session) :
    session.IsSettled ∧
      session.accepted = .complete session.project .none ∧
        session.toOptions = .defaults session.project := by
  obtain ⟨config, isConfig, isSession⟩ := bind_eq_ok_iff.mp isMade
  obtain ⟨properProject, properLocal⟩ := Config.isProper_of_make proper isConfig
  cases isSession
  have areDefaults := Memory.read_store Memory.isSound_empty
    (AcceptedOptions.complete config.project .none).all
  exact ⟨⟨.reset Memory.isSound_empty, properProject, properLocal, proper,
    (congrArg Options.IsProper areDefaults).mpr
      (AcceptedOptions.isProper_all_complete properProject)⟩, rfl, areDefaults⟩

theorem of_ofSetting
    {surroundings : Surroundings}
    (proper : surroundings.directory.IsProper)
    {setting : Setting}
    {project : Option Text}
    (isMade : ofSetting surroundings setting project = .ok session) :
    session.IsSettled ∧ session.IsAgreed := by
  have sound := IsSound.of_ofSetting isMade
  obtain ⟨fresh, isFresh, isMade⟩ := bind_eq_ok_iff.mp isMade
  obtain ⟨accepted, isAccepted, isSession⟩ := bind_eq_ok_iff.mp isMade
  obtain ⟨settled, -⟩ := of_make proper isFresh
  have properGiven := AcceptedOptions.isProper_of_accept settled.project isAccepted
  have isRead := Memory.read_store settled.sound.memory accepted.given
  obtain ⟨given, -, rfl⟩ := AcceptedOptions.accept_eq_ok_iff.mp isAccepted
  cases isSession
  exact ⟨⟨sound, settled.project, settled.localPath, settled.directory,
    (congrArg Options.IsProper isRead).mpr properGiven⟩,
    congrArg (AcceptedOptions.complete fresh.project) isRead.symm⟩

theorem move
    (settled : session.IsSettled)
    {directory : AbsolutePath}
    (proper : directory.IsProper) :
    IsSettled { session with directory } :=
  ⟨⟨settled.sound.memory, settled.sound.stored⟩, settled.project, settled.localPath, proper,
    settled.options⟩

end IsSettled

/-!
## New sessions as configurations
-/

/-- A new session has the new configuration. -/
theorem map_toConfig_make
    (surroundings : Surroundings)
    (localPath project : Option Text) :
    (make surroundings localPath project).map toConfig =
      Config.make surroundings localPath project := by
  rw [make]
  cases isMade : Config.make surroundings localPath project with
  | error failure =>
      rfl
  | ok config =>
      have areDefaults := Memory.read_store Memory.isSound_empty
        (AcceptedOptions.complete config.project .none).all
      have isNew : config.reset = config := Config.reset_of_make isMade
      refine congrArg Except.ok (Eq.trans ?_ isNew)
      rw [Config.reset, toConfig]
      exact congrArg (Config.mk config.project config.globalPath config.localPath · .none [])
        areDefaults

/-- So does a session that is given options. -/
theorem map_toConfig_ofSetting
    (surroundings : Surroundings)
    (setting : Setting)
    (project : Option Text) :
    (ofSetting surroundings setting project).map toConfig =
      Config.ofSetting surroundings setting project := by
  have ofFresh := map_toConfig_make surroundings none project
  rw [ofSetting, Config.ofSetting, ← ofFresh]
  cases isFresh : make surroundings none project with
  | error failure =>
      rfl
  | ok fresh =>
      have sameProject : fresh.toConfig.project = fresh.project := rfl
      change Except.map toConfig (AcceptedOptions.accept fresh.project setting >>= _) =
        ConfigFailure.ofChecked (Options.read fresh.toConfig.project setting) >>= _
      rw [sameProject]
      cases isRead : ConfigFailure.ofChecked (Options.read fresh.project setting) with
      | error failure =>
          rw [AcceptedOptions.accept_eq_error_iff.mpr isRead]
          rfl
      | ok options =>
          rw [AcceptedOptions.accept_eq_ok_iff.mpr ⟨options, isRead, rfl⟩]
          have isStored := Memory.read_store (IsSound.of_make isFresh).memory options
          exact congrArg (fun stored => Except.ok (Config.mk fresh.project fresh.globalPath
            fresh.localPath stored options fresh.loaded)) isStored

/-!
## Loading in a settled session
-/

/-- A copy of the options of a session leaves those of the session as they were. -/
theorem HasCopy.toConfig_eq
    {memory : Memory}
    {target : Nat}
    {options : Options}
    (copied : session.HasCopy memory target options)
    (sound : session.IsSound) :
    toConfig { session with memory } = session.toConfig := by
  have sameOptions : toOptions { session with memory } = session.toOptions :=
    (copied.isUnchanged sound).options
  rw [toConfig, toConfig, sameOptions]

/-- Options that were collected from files are proper. -/
theorem IsSettled.isProper_of_loadFile
    (settled : session.IsSettled)
    {t : Text}
    {path : AbsolutePath}
    (isResolved : PathText.resolve session.directory t = .ok path)
    {files : FileTree}
    {fuel : Nat}
    {loading : Config.Loading}
    {failure? : Option ConfigFailure}
    (isLoaded :
      Config.Loading.loadFile files fuel none path ⟨session.toOptions, [], [], []⟩ =
        (loading, failure?)) :
    loading.options.IsProper := by
  have properPath := AbsolutePath.isProper_of_resolve settled.directory isResolved
  have properAfter := Config.Loading.isProper_loadFile files fuel none properPath
    (show (⟨session.toOptions, [], [], []⟩ : Config.Loading).options.IsProper from
      settled.options)
  rwa [isLoaded] at properAfter

theorem IsSettled.accept_of_loadFile
    (settled : session.IsSettled)
    {t : Text}
    {path : AbsolutePath}
    (isResolved : PathText.resolve session.directory t = .ok path)
    {files : FileTree}
    {fuel : Nat}
    {loading : Config.Loading}
    {failure? : Option ConfigFailure}
    (isLoaded :
      Config.Loading.loadFile files fuel none path ⟨session.toOptions, [], [], []⟩ =
        (loading, failure?)) :
    AcceptedOptions.accept session.project loading.options.toSetting =
      .ok (.complete session.project loading.options) :=
  AcceptedOptions.accept_toSetting (settled.isProper_of_loadFile isResolved isLoaded) _

/-- A load that succeeds leaves options that are accepted as they are stored. -/
theorem IsSettled.load
    (settled : session.IsSettled)
    {files : FileTree}
    {t : Text}
    {after : Session}
    {logs : List LogRecord}
    (succeeds : session.load files t = (after, none, logs)) :
    after.IsSettled ∧ after.IsAgreed := by
  have loads := loads_load settled.sound files t
  rw [succeeds] at loads
  cases loads with
  | @succeeds memory target loading copied path isResolved isLoaded accepted isAccepted =>
      rw [settled.accept_of_loadFile isResolved isLoaded] at isAccepted
      cases isAccepted
      have isRead : memory.read target = loading.options := copied.isRead
      refine ⟨⟨⟨copied.sound, copied.isMade⟩, settled.project, settled.localPath,
        settled.directory, ?_⟩, ?_⟩
      · rw [toOptions, isRead]
        exact settled.isProper_of_loadFile isResolved isLoaded
      · rw [IsAgreed, toOptions, isRead]

/-- A settled session loads what it is told that a configuration loads. -/
theorem IsSettled.toConfig_load
    (settled : session.IsSettled)
    {surroundings : Surroundings}
    (isThere : surroundings.directory = session.directory)
    (t : Text) :
    Prod.map toConfig id (session.load surroundings.files t) =
      session.toConfig.loadText surroundings t := by
  have loads := loads_load settled.sound surroundings.files t
  generalize session.load surroundings.files t = outcome at loads
  rw [Config.loadText, Config.findPath, isThere]
  cases loads with
  | unresolved copied isUnresolved =>
      rw [isUnresolved, mapError_error, Prod.map_apply, copied.toConfig_eq settled.sound]
      rfl
  | fails copied isResolved isLoaded =>
      rw [isResolved, mapError_ok, Prod.map_apply, copied.toConfig_eq settled.sound]
      exact (Config.load_of_failure isLoaded).symm
  | refused copied isResolved isLoaded isRefused =>
      rw [settled.accept_of_loadFile isResolved isLoaded] at isRefused
      cases isRefused
  | @succeeds memory target loading copied path isResolved isLoaded accepted isAccepted =>
      rw [settled.accept_of_loadFile isResolved isLoaded] at isAccepted
      cases isAccepted
      have isRead : memory.read target = loading.options := copied.isRead
      have ofLoaded : session.toConfig.load surroundings path = _ :=
        Config.load_of_loaded isLoaded
      rw [isResolved, mapError_ok]
      dsimp only
      rw [ofLoaded, Prod.map_apply, toConfig, toOptions, isRead]
      rfl

/-!
## Loading the files of a configuration
-/

theorem directory_load
    (sound : session.IsSound)
    (files : FileTree)
    (t : Text) :
    (session.load files t).1.directory = session.directory := by
  have loads := loads_load sound files t
  generalize session.load files t = outcome at loads
  cases loads <;> rfl

theorem IsSettled.loadConfigs
    (settled : session.IsSettled)
    {files : FileTree}
    {after : Session}
    {logs : List LogRecord}
    (succeeds : session.loadConfigs files = (after, none, logs)) :
    after.IsSettled ∧ after.IsAgreed := by
  rw [Session.loadConfigs] at succeeds
  split at succeeds
  case h_1 =>
    cases succeeds
  case h_2 middle logs isGlobal =>
    have settledMiddle := (settled.reset.load isGlobal).1
    cases isLocal : middle.load files middle.localPath.toText with
    | mk last outcome =>
        rw [isLocal] at succeeds
        obtain ⟨failure?, more⟩ := outcome
        cases succeeds
        exact settledMiddle.load isLocal

/-- A settled session loads its files as it is told of a configuration, if the file of the
user can be one. -/
theorem IsSettled.toConfig_loadConfigs
    (settled : session.IsSettled)
    {surroundings : Surroundings}
    (isThere : surroundings.directory = session.directory)
    {globalPath : AbsolutePath}
    (isResolved : PathText.resolve session.directory session.globalPath = .ok globalPath) :
    Prod.map toConfig id (session.loadConfigs surroundings.files) =
      session.toConfig.loadConfigs surroundings := by
  have isReset : session.reset.toConfig = session.toConfig.reset := by
    rw [toConfig, toOptions_reset settled.sound.memory]
    rfl
  have isGlobal : surroundings.directory.resolve session.globalPath = globalPath := by
    rw [isThere]
    exact (PathText.eq_of_resolve isResolved).symm
  have ofGlobal := settled.reset.toConfig_load isThere session.globalPath
  rw [isReset, Config.loadText, Config.findPath, isThere, isResolved, mapError_ok] at ofGlobal
  have isBack := directory_load settled.reset.sound surroundings.files session.globalPath
  rw [Session.loadConfigs, Config.loadConfigs]
  dsimp only [toConfig] at isGlobal ofGlobal ⊢
  rw [isGlobal, ← ofGlobal]
  cases isLoaded : session.reset.load surroundings.files session.globalPath with
  | mk middle outcome =>
      rw [isLoaded] at isBack
      obtain ⟨_ | failure, logs⟩ := outcome
      · have settledMiddle := (settled.reset.load isLoaded).1
        have sameLocal : middle.toConfig.localPath = middle.localPath := rfl
        have ofLocal := settledMiddle.toConfig_load (isThere.trans isBack.symm)
          middle.localPath.toText
        rw [Config.loadText, Config.findPath,
          AbsolutePath.resolve_toText settledMiddle.localPath, mapError_ok] at ofLocal
        dsimp only [Prod.map_apply, id] at ofLocal ⊢
        rw [sameLocal, ← ofLocal]
        rfl
      · rfl

/-!
## Updating a settled session
-/

/-- What is left of options after an update is proper. -/
theorem IsSettled.isProper_of_removeAll
    (settled : session.IsSettled)
    {setting : Setting}
    {new : AcceptedOptions}
    (isNew : AcceptedOptions.accept session.project setting = .ok new)
    {removed : List (List Text)}
    {options : Options}
    {fault? : Option Fault}
    (isLeft : (session.toOptions.merge new.given).removeAll removed = (options, fault?)) :
    options.IsProper := by
  have properNew := AcceptedOptions.isProper_of_accept settled.project isNew
  have properLeft := (settled.options.merge properNew).removeAll removed
  rwa [isLeft] at properLeft

/-- An update that succeeds leaves options that are accepted as they are stored. -/
theorem IsSettled.update
    (settled : session.IsSettled)
    {setting : Setting}
    {removed : List (List Text)}
    {after : Session}
    {changes : Options.Changes}
    (succeeds : session.update setting removed = (after, .ok changes)) :
    after.IsSettled ∧ after.IsAgreed := by
  have updates := updates_update settled.sound setting removed
  rw [succeeds] at updates
  cases updates with
  | @succeeds new isNew options isLeft accepted isAccepted =>
      have proper := settled.isProper_of_removeAll isNew isLeft
      rw [AcceptedOptions.accept_toSetting proper] at isAccepted
      cases isAccepted
      have isRead := settled.sound.toOptions_write options
      have sound := settled.sound.write options
      refine ⟨⟨⟨sound.memory, sound.stored⟩, settled.project, settled.localPath,
        settled.directory, ?_⟩, ?_⟩
      · exact isRead.symm ▸ proper
      · exact congrArg (AcceptedOptions.complete session.project) isRead.symm

/-- A settled session is updated as it is told of a configuration. -/
theorem IsSettled.toConfig_update
    (settled : session.IsSettled)
    (setting : Setting)
    (removed : List (List Text)) :
    Prod.map toConfig id (session.update setting removed) =
      session.toConfig.update setting removed := by
  have updates := updates_update settled.sound setting removed
  have isRead := fun options => settled.sound.toOptions_write options
  have sameProject : session.toConfig.project = session.project := rfl
  have sameOptions : session.toConfig.stored = session.toOptions := rfl
  generalize session.update setting removed = outcome at updates
  rw [Config.update, sameProject, sameOptions]
  cases updates with
  | refused isRefused =>
      rw [AcceptedOptions.accept_eq_error_iff.mp isRefused]
      rfl
  | @fails new isNew options fault? isLeft failure isRefused =>
      have proper := settled.isProper_of_removeAll isNew isLeft
      obtain ⟨given, isGiven, rfl⟩ := AcceptedOptions.accept_eq_ok_iff.mp isNew
      rw [isGiven]
      dsimp only [AcceptedOptions.complete] at isLeft ⊢
      rw [isLeft]
      rcases isRefused with ⟨fault, isFault, rfl⟩ | ⟨-, isRefused⟩
      · cases isFault
        rw [Prod.map_apply, toConfig, isRead]
        rfl
      · rw [AcceptedOptions.accept_toSetting proper] at isRefused
        cases isRefused
  | @succeeds new isNew options isLeft accepted isAccepted =>
      have proper := settled.isProper_of_removeAll isNew isLeft
      obtain ⟨given, isGiven, rfl⟩ := AcceptedOptions.accept_eq_ok_iff.mp isNew
      rw [AcceptedOptions.accept_toSetting proper] at isAccepted
      cases isAccepted
      rw [isGiven]
      dsimp only [AcceptedOptions.complete] at isLeft ⊢
      rw [isLeft, Prod.map_apply, toConfig]
      have isStored := isRead options
      rw [toOptions] at isStored ⊢
      rw [isStored]
      rfl

/-!
## Sessions that occur
-/

namespace IsSettled

/-- A copy of options beside those of a session does not unsettle it. -/
theorem of_hasCopy
    (settled : session.IsSettled)
    {memory : Memory}
    {target : Nat}
    {options : Options}
    (copied : session.HasCopy memory target options) :
    IsSettled { session with memory } :=
  ⟨⟨copied.sound, copied.lt_of_lt settled.sound.stored⟩, settled.project, settled.localPath,
    settled.directory, (copied.isUnchanged settled.sound).options.symm ▸ settled.options⟩

/-- So it is with a load, whether it succeeds or not. -/
theorem of_load
    (settled : session.IsSettled)
    (files : FileTree)
    (t : Text) :
    (session.load files t).1.IsSettled := by
  rcases outcome : session.load files t with ⟨after, _ | failure, logs⟩
  · exact (settled.load outcome).1
  · have loads := loads_load settled.sound files t
    rw [outcome] at loads
    cases loads with
    | unresolved copied | fails copied | refused copied =>
        exact settled.of_hasCopy copied

theorem of_loadConfigs
    (settled : session.IsSettled)
    (files : FileTree) :
    (session.loadConfigs files).1.IsSettled := by
  have ofGlobal := settled.reset.of_load files session.globalPath
  rw [Session.loadConfigs]
  split
  case h_1 isGlobal =>
    rw [isGlobal] at ofGlobal
    exact ofGlobal
  case h_2 isGlobal =>
    rw [isGlobal] at ofGlobal
    exact ofGlobal.of_load files _

/-- Options that are written in place of those of a session do not unsettle it if they are
proper. -/
theorem of_write
    (settled : session.IsSettled)
    {options : Options}
    (proper : options.IsProper) :
    IsSettled { session with memory := session.memory.write session.stored options } :=
  ⟨settled.sound.write options, settled.project, settled.localPath, settled.directory,
    (settled.sound.toOptions_write options).symm ▸ proper⟩

theorem of_update
    (settled : session.IsSettled)
    (setting : Setting)
    (removed : List (List Text)) :
    (session.update setting removed).1.IsSettled := by
  have updates := updates_update settled.sound setting removed
  generalize session.update setting removed = outcome at updates
  cases updates with
  | refused =>
      exact settled
  | fails isNew isLeft =>
      exact settled.of_write (settled.isProper_of_removeAll isNew isLeft)
  | succeeds isNew isLeft =>
      have written := settled.of_write (settled.isProper_of_removeAll isNew isLeft)
      exact ⟨⟨written.sound.memory, written.sound.stored⟩, written.project, written.localPath,
        written.directory, written.options⟩

/-- Every step leaves a session settled if it leads to a resolved directory. -/
theorem after
    (settled : session.IsSettled)
    {step : Step}
    (proper : step.IsProper) :
    (session.after step).IsSettled := by
  cases step with
  | load files t =>
      exact settled.of_load files t
  | loadConfigs files =>
      exact settled.of_loadConfigs files
  | update setting removed =>
      exact settled.of_update setting removed
  | move directory =>
      exact settled.move proper

end IsSettled

theorem Occurs.isSettled
    (occurs : Occurs session) :
    session.IsSettled := by
  obtain ⟨start, localPath, project, isGiven, properStart, reached⟩ := occurs
  induction reached with
  | make isMade =>
      exact (IsSettled.of_make properStart isMade).1
  | ofSetting _ isMade =>
      exact (IsSettled.of_ofSetting properStart isMade).1
  | step _ proper settled =>
      exact settled.after proper

end Session

end ContractBindings
