import ContractBindings.Proofs.Descents
import ContractBindings.Proofs.FileCircles
import ContractBindings.Proofs.SessionSteps

namespace ContractBindings

/-!
# Loads that fail

Files are merged into a copy of the options of a configuration, and the copy takes their
place only if everything has succeeded.  Main statement: whatever was done to a
configuration, a load that fails changes nothing of it, of any options that it handed out
and of the directory that the program works in.
-/

namespace Session

variable {session : Session} {files : FileTree}

/-!
## What a load can come to
-/

/-- The options are kept at a place that was made. -/
structure IsSound (session : Session) : Prop where
  memory : session.memory.IsSound
  stored : session.stored < session.memory.tables.length

/-- A memory with a copy of the options of a session, in which nothing that was there before
was changed. -/
structure HasCopy (session : Session) (memory : Memory) (target : Nat) (options : Options) :
    Prop where
  isExtended : session.memory.Extends memory target
  sound : memory.IsSound
  isMade : target < memory.tables.length
  isRead : memory.read target = options

/-- What comes of loading the file that a path text leads to. -/
inductive Loads (files : FileTree) (session : Session) (t : Text) :
    Session × Option ConfigFailure × List LogRecord → Prop where
  /-- The text leads nowhere. -/
  | unresolved
      {memory : Memory}
      {target : Nat}
      (copied : session.HasCopy memory target session.toOptions)
      {failure : PathFailure}
      (isUnresolved : PathText.resolve session.directory t = .error failure) :
      Loads files session t ({ session with memory }, some (.fault failure.fault), [])
  /-- The file fails, or one below it. -/
  | fails
      {memory : Memory}
      {target : Nat}
      {loading : Config.Loading}
      (copied : session.HasCopy memory target loading.options)
      {path : AbsolutePath}
      (isResolved : PathText.resolve session.directory t = .ok path)
      {failure : ConfigFailure}
      (isLoaded :
        Config.Loading.loadFile files (files.files.length + 2) none path
          ⟨session.toOptions, [], [], []⟩ = (loading, some failure)) :
      Loads files session t ({ session with memory }, some failure, loading.logs)
  /-- The options that were collected are not accepted. -/
  | refused
      {memory : Memory}
      {target : Nat}
      {loading : Config.Loading}
      (copied : session.HasCopy memory target loading.options)
      {path : AbsolutePath}
      (isResolved : PathText.resolve session.directory t = .ok path)
      (isLoaded :
        Config.Loading.loadFile files (files.files.length + 2) none path
          ⟨session.toOptions, [], [], []⟩ = (loading, none))
      {failure : ConfigFailure}
      (isRefused :
        AcceptedOptions.accept session.project loading.options.toSetting = .error failure) :
      Loads files session t ({ session with memory }, some failure, loading.logs)
  | succeeds
      {memory : Memory}
      {target : Nat}
      {loading : Config.Loading}
      (copied : session.HasCopy memory target loading.options)
      {path : AbsolutePath}
      (isResolved : PathText.resolve session.directory t = .ok path)
      (isLoaded :
        Config.Loading.loadFile files (files.files.length + 2) none path
          ⟨session.toOptions, [], [], []⟩ = (loading, none))
      {accepted : AcceptedOptions}
      (isAccepted :
        AcceptedOptions.accept session.project loading.options.toSetting = .ok accepted) :
      Loads files session t
        ({ session with
          memory
          stored := target
          accepted
          loaded := Config.addPaths session.loaded loading.loaded }, none, loading.logs)

/-- A load comes to one of these. -/
theorem loads_load
    (sound : session.IsSound)
    (files : FileTree)
    (t : Text) :
    Loads files session t (session.load files t) := by
  have isExtended := session.memory.extends_store session.toOptions
  have isRead := Memory.read_store sound.memory session.toOptions
  have isMade := session.memory.isMade_store session.toOptions
  have isSound := sound.memory.store session.toOptions
  rw [load]
  generalize session.memory.store session.toOptions = copy at isExtended isRead isMade isSound ⊢
  obtain ⟨memory, target⟩ := copy
  dsimp only at isExtended isRead isMade isSound ⊢
  cases isResolved : PathText.resolve session.directory t with
  | error failure =>
      exact .unresolved ⟨isExtended, isSound, isMade, isRead⟩ isResolved
  | ok path =>
      have follows := Descent.follows_loadFile files (files.files.length + 2) none path
        (⟨isExtended, isSound, isMade⟩ :
          Descent.Keeps session.memory ⟨memory, session.directory, target, [], [], []⟩)
      have start : Descent.toLoading ⟨memory, session.directory, target, [], [], []⟩ =
          ⟨session.toOptions, [], [], []⟩ := by
        rw [Descent.toLoading]
        exact congrArg (Config.Loading.mk · [] [] []) isRead
      rw [start] at follows
      dsimp only
      generalize Descent.loadFile files (files.files.length + 2) none path
        ⟨memory, session.directory, target, [], [], []⟩ = outcome at follows
      obtain ⟨descent, failure?⟩ := outcome
      cases isLoaded : Config.Loading.loadFile files (files.files.length + 2) none path
        ⟨session.toOptions, [], [], []⟩ with
      | mk loading expected? =>
          rw [isLoaded] at follows
          obtain ⟨⟨isExtended, isSound, isMade⟩, isTarget, isDirectory, rfl, rfl⟩ := follows
          dsimp only at isExtended isSound isMade isTarget isDirectory isLoaded ⊢
          rw [isDirectory]
          rw [← isTarget]
          cases failure? with
          | some failure =>
              exact .fails ⟨isExtended, isSound, isMade, rfl⟩ isResolved isLoaded
          | none =>
              dsimp only
              cases isAccepted : AcceptedOptions.accept session.project
                (descent.memory.read descent.target).toSetting with
              | error failure =>
                  exact .refused ⟨isExtended, isSound, isMade, rfl⟩ isResolved isLoaded isAccepted
              | ok accepted =>
                  exact .succeeds ⟨isExtended, isSound, isMade, rfl⟩ isResolved isLoaded
                    isAccepted

/-!
## What an update can come to
-/

/-- What comes of taking options from a setting and removing others. -/
inductive Updates (session : Session) (setting : Setting) (removed : List (List Text)) :
    Session × Except ConfigFailure Options.Changes → Prop where
  /-- The setting is not accepted. -/
  | refused
      {failure : ConfigFailure}
      (isRefused : AcceptedOptions.accept session.project setting = .error failure) :
      Updates session setting removed (session, .error failure)
  /-- An option to be removed is none, or the options that are left are not accepted. -/
  | fails
      {new : AcceptedOptions}
      (isNew : AcceptedOptions.accept session.project setting = .ok new)
      {options : Options}
      {fault? : Option Fault}
      (isLeft : (session.toOptions.merge new.given).removeAll removed = (options, fault?))
      {failure : ConfigFailure}
      (isRefused :
        (∃ fault ∈ fault?, failure = .fault fault) ∨
          fault? = none ∧
            AcceptedOptions.accept session.project options.toSetting = .error failure) :
      Updates session setting removed
        ({ session with memory := session.memory.write session.stored options },
          .error failure)
  | succeeds
      {new : AcceptedOptions}
      (isNew : AcceptedOptions.accept session.project setting = .ok new)
      {options : Options}
      (isLeft : (session.toOptions.merge new.given).removeAll removed = (options, none))
      {accepted : AcceptedOptions}
      (isAccepted :
        AcceptedOptions.accept session.project options.toSetting = .ok accepted) :
      Updates session setting removed
        ({ session with memory := session.memory.write session.stored options, accepted },
          .ok (Options.changes session.toOptions accepted.given))

/-- Options that were written where those of a session are kept are those of the session. -/
theorem IsSound.toOptions_write
    (sound : session.IsSound)
    (options : Options) :
    toOptions { session with memory := session.memory.write session.stored options } = options :=
  Memory.read_write sound.memory sound.stored options

/-- An update comes to one of these. -/
theorem updates_update
    (sound : session.IsSound)
    (setting : Setting)
    (removed : List (List Text)) :
    Updates session setting removed (session.update setting removed) := by
  rw [update]
  cases isNew : AcceptedOptions.accept session.project setting with
  | error failure =>
      exact .refused isNew
  | ok new =>
      dsimp only
      rcases isLeft : (session.toOptions.merge new.given).removeAll removed with
        ⟨options, _ | fault⟩
      · dsimp only
        rw [sound.toOptions_write]
        cases isAccepted : AcceptedOptions.accept session.project options.toSetting with
        | error failure =>
            exact .fails isNew isLeft (.inr ⟨rfl, isAccepted⟩)
        | ok accepted =>
            exact .succeeds isNew isLeft isAccepted
      · exact .fails isNew isLeft (.inl ⟨fault, rfl, rfl⟩)

/-!
## Sessions that can be reached
-/

/-- A copy is made beside everything that was there. -/
theorem HasCopy.lt_of_lt
    {memory : Memory}
    {target : Nat}
    {options : Options}
    (copied : session.HasCopy memory target options)
    {place : Nat}
    (isKnown : place < session.memory.tables.length) :
    place < memory.tables.length :=
  Nat.lt_of_lt_of_le isKnown copied.isExtended.tables.length_le

namespace IsSound

theorem reset
    (sound : session.memory.IsSound) :
    session.reset.IsSound :=
  ⟨sound.store _, session.memory.isMade_store _⟩

theorem of_make
    {surroundings : Surroundings}
    {localPath project : Option Text}
    (isMade : make surroundings localPath project = .ok session) :
    session.IsSound := by
  obtain ⟨config, -, isSession⟩ := bind_eq_ok_iff.mp isMade
  cases isSession
  exact reset Memory.isSound_empty

theorem of_ofSetting
    {surroundings : Surroundings}
    {setting : Setting}
    {project : Option Text}
    (isMade : ofSetting surroundings setting project = .ok session) :
    session.IsSound := by
  obtain ⟨fresh, isFresh, isMade⟩ := bind_eq_ok_iff.mp isMade
  obtain ⟨accepted, -, isSession⟩ := bind_eq_ok_iff.mp isMade
  cases isSession
  exact ⟨(of_make isFresh).memory.store _, fresh.memory.isMade_store _⟩

theorem load
    (sound : session.IsSound)
    (files : FileTree)
    (t : Text) :
    (session.load files t).1.IsSound := by
  have loads := loads_load sound files t
  generalize session.load files t = outcome at loads
  cases loads with
  | unresolved copied | fails copied | refused copied =>
      exact ⟨copied.sound, copied.lt_of_lt sound.stored⟩
  | succeeds copied =>
      exact ⟨copied.sound, copied.isMade⟩

theorem loadConfigs
    (sound : session.IsSound)
    (files : FileTree) :
    (session.loadConfigs files).1.IsSound := by
  have ofGlobal := (reset sound.memory).load files session.globalPath
  rw [Session.loadConfigs]
  revert ofGlobal
  rcases session.reset.load files session.globalPath with ⟨loaded, _ | failure, logs⟩
  · exact fun ofGlobal => ofGlobal.load files _
  · exact id

theorem write
    (sound : session.IsSound)
    (options : Options) :
    IsSound { session with memory := session.memory.write session.stored options } :=
  ⟨sound.memory.write _ _, (Memory.length_tables_write _ _ _).symm ▸ sound.stored⟩

theorem update
    (sound : session.IsSound)
    (setting : Setting)
    (removed : List (List Text)) :
    (session.update setting removed).1.IsSound := by
  have updates := updates_update sound setting removed
  generalize session.update setting removed = outcome at updates
  cases updates with
  | refused =>
      exact sound
  | fails =>
      exact sound.write _
  | succeeds =>
      exact ⟨(sound.write _).memory, (sound.write _).stored⟩

/-- Every step keeps what is stored within the memory. -/
theorem after
    (sound : session.IsSound)
    (step : Step) :
    (session.after step).IsSound := by
  cases step with
  | load files t =>
      exact sound.load files t
  | loadConfigs files =>
      exact sound.loadConfigs files
  | update setting removed =>
      exact sound.update setting removed
  | move directory =>
      exact ⟨sound.memory, sound.stored⟩

end IsSound

theorem IsReachable.isSound
    (reachable : IsReachable session) :
    session.IsSound := by
  obtain ⟨start, localPath, project, isGiven, reached⟩ := reachable
  induction reached with
  | make isMade =>
      exact .of_make isMade
  | ofSetting _ isMade =>
      exact .of_ofSetting isMade
  | @step _ _ _ step _ sound =>
      exact sound.after step

/-!
## Loads that fail
-/

/-- Nothing of a configuration has changed, as far as anyone can tell. -/
structure IsUnchanged (old new : Session) : Prop where
  /-- The table that is handed out is the same one. -/
  stored : new.stored = old.stored
  options : new.toOptions = old.toOptions
  /-- So are the options in all tables that were handed out before. -/
  handedOut :
    ∀ place < old.memory.tables.length, new.memory.read place = old.memory.read place
  output : new.accepted.output = old.accepted.output
  localSuffix : new.accepted.localSuffix = old.accepted.localSuffix
  text : new.text = old.text
  literal : new.literal = old.literal
  loaded : new.loaded = old.loaded
  project : new.project = old.project
  globalPath : new.globalPath = old.globalPath
  localPath : new.localPath = old.localPath
  directory : new.directory = old.directory

/-- A session is unchanged beside a copy of its options. -/
theorem HasCopy.isUnchanged
    {memory : Memory}
    {target : Nat}
    {options : Options}
    (copied : session.HasCopy memory target options)
    (sound : session.IsSound) :
    IsUnchanged session { session with memory } := by
  have handedOut : ∀ place < session.memory.tables.length,
      memory.read place = session.memory.read place :=
    fun place isKnown => copied.isExtended.read_eq sound.memory isKnown
  have sameOptions : toOptions { session with memory } = session.toOptions :=
    handedOut session.stored sound.stored
  have sameLiteral : literal { session with memory } = session.literal := by
    rw [literal, literal, toConfig, sameOptions]
    rfl
  exact ⟨rfl, sameOptions, handedOut, rfl, rfl, rfl, sameLiteral, rfl, rfl, rfl, rfl, rfl⟩

/-- A load that fails changes nothing of a configuration that can be reached, wherever it
fails. -/
theorem isUnchanged_of_load
    (reachable : IsReachable session)
    {files : FileTree}
    {t : Text}
    {failure : ConfigFailure}
    (fails : (session.load files t).2.1 = some failure) :
    IsUnchanged session (session.load files t).1 := by
  have sound := reachable.isSound
  have loads := loads_load sound files t
  generalize session.load files t = outcome at loads fails
  cases loads with
  | unresolved copied | fails copied | refused copied =>
      exact copied.isUnchanged sound
  | succeeds =>
      cases fails

/-- A file sets a suffix and lists another one, which sets another suffix and lists a third
one.  The third one sets an option that is none. -/
def misspelled : Surroundings :=
  Config.ofFiles
    [(⟨["a.toml"]⟩, "subconfigs = [\"b/b.toml\"]\n[generator]\nlocal_suffix = \"_a\""),
      (⟨["b", "b.toml"]⟩, "subconfigs = [\"c.toml\"]\n[generator]\nlocal_suffix = \"_b\""),
      (⟨["b", "c.toml"]⟩, "[generator]\nsuffix = \"_c\"")]

/-- A session in which nothing was loaded. -/
def opened : Session :=
  reset
    { project := ⟨[]⟩
      globalPath := Config.untouched.globalPath
      localPath := Config.untouched.localPath
      memory := .empty
      directory := ⟨[]⟩
      stored := 0
      accepted := .complete ⟨[]⟩ .none
      loaded := [] }

theorem make_misspelled :
    make misspelled none none = .ok opened := by
  have isDirectory : misspelled.files.isDirectory misspelled.directory = true := by
    decide +kernel
  have isMade : Config.make misspelled none none = .ok Config.untouched := by
    have isGlobal : Config.globalPathOf misspelled = .ok Config.untouched.globalPath := by
      rfl
    simp only [Config.make, isGlobal, bind, Except.bind, isDirectory, if_true]
    rfl
  rw [make, isMade]
  rfl

theorem opened_arrives :
    Arrives false opened :=
  ⟨misspelled, none, none, by decide, .make make_misspelled⟩

/-- Two files are merged before the third one fails, but not where the options are kept. -/
theorem isUnchanged_of_load_misspelled :
    IsReachable opened ∧
      ∃ failure,
        (opened.load misspelled.files "a.toml").2.1 = some failure ∧
          ((opened.load misspelled.files "a.toml").1.memory.read 1).localSuffix = "_b" ∧
            IsUnchanged opened (opened.load misspelled.files "a.toml").1 := by
  have fails : (opened.load misspelled.files "a.toml").2.1.isSome = true := by
    decide +kernel
  obtain ⟨failure, fails⟩ := Option.isSome_iff_exists.mp fails
  have reachable := opened_arrives.occurs.isReachable
  exact ⟨reachable, failure, fails, by decide +kernel, isUnchanged_of_load reachable fails⟩

end Session

end ContractBindings
