import ContractBindings.CommandLine.Run
import ContractBindings.Proofs.SettledSessions

namespace ContractBindings

open Relation

/-!
# What a program loads

A program loads files into the table of options in its memory.  What it has afterwards is what
is told of a configuration without memory, so its options are taken in the order in which files
are visited, and whatever it has done before does not matter when it loads all files again.

Main statement: `Config.load_takes_files_in_order`.
-/

namespace Session

variable {session : Session}

/-- Loads files one after another, up to the first that fails. -/
def loadEach (files : FileTree) :
    Session → List Text → Session × Option ConfigFailure × List LogRecord
  | session, [] => (session, none, [])
  | session, t :: ts =>
      match session.load files t with
      | (session, some failure, logs) => (session, some failure, logs)
      | (session, none, logs) =>
          let (session, failure?, more) := loadEach files session ts
          (session, failure?, logs ++ more)

/-!
## Places
-/

theorem samePlaces_load
    (sound : session.IsSound)
    (files : FileTree)
    (t : Text) :
    Config.SamePlaces session.toConfig (session.load files t).1.toConfig := by
  have loads := loads_load sound files t
  generalize session.load files t = outcome at loads
  cases loads <;> exact ⟨rfl, rfl, rfl⟩

/-- The files of a program are loaded after everything else is forgotten. -/
theorem loadConfigs_eq_loadEach
    (sound : session.IsSound)
    (files : FileTree) :
    session.loadConfigs files =
      session.reset.loadEach files [session.globalPath, session.localPath.toText] := by
  have sameLocal :=
    (samePlaces_load (IsSound.reset sound.memory) files session.globalPath).localPath
  rw [loadConfigs, loadEach]
  revert sameLocal
  rcases session.reset.load files session.globalPath with ⟨loaded, _ | failure, logs⟩
  · intro (sameLocal : loaded.localPath = session.localPath)
    simp only [sameLocal, loadEach]
    rcases loaded.load files session.localPath.toText with ⟨last, _ | failure, more⟩ <;> simp
  · exact fun _ => rfl

theorem samePlaces_loadConfigs
    (sound : session.IsSound)
    (files : FileTree) :
    Config.SamePlaces session.toConfig (session.loadConfigs files).1.toConfig := by
  have ofReset : Config.SamePlaces session.toConfig session.reset.toConfig := ⟨rfl, rfl, rfl⟩
  have soundReset := IsSound.reset sound.memory
  have ofGlobal := samePlaces_load soundReset files session.globalPath
  have soundGlobal := soundReset.load files session.globalPath
  rw [loadConfigs]
  split
  case h_1 isGlobal =>
    rw [isGlobal] at ofGlobal
    exact ofReset.trans ofGlobal
  case h_2 isGlobal =>
    rw [isGlobal] at ofGlobal soundGlobal
    exact (ofReset.trans ofGlobal).trans (samePlaces_load soundGlobal files _)

/-- No step leads to another project or to other places of its files. -/
theorem samePlaces_after
    (sound : session.IsSound)
    (step : Step) :
    Config.SamePlaces session.toConfig (session.after step).toConfig := by
  cases step with
  | load files t =>
      exact samePlaces_load sound files t
  | loadConfigs files =>
      exact samePlaces_loadConfigs sound files
  | update setting removed =>
      have updates := updates_update sound setting removed
      rw [after]
      generalize session.update setting removed = outcome at updates
      cases updates <;> exact ⟨rfl, rfl, rfl⟩
  | move directory =>
      exact ⟨rfl, rfl, rfl⟩

/-- What is made with options is of the same project as what is made without them. -/
theorem samePlaces_of_ofSetting
    {start : Surroundings}
    {setting : Setting}
    {project : Option Text}
    {fresh : Session}
    (isFresh : make start none project = .ok fresh)
    (isMade : ofSetting start setting project = .ok session) :
    Config.SamePlaces fresh.toConfig session.toConfig := by
  obtain ⟨_, isSame, isMade⟩ := bind_eq_ok_iff.mp isMade
  obtain ⟨accepted, -, isSession⟩ := bind_eq_ok_iff.mp isMade
  rw [isFresh] at isSame
  cases isSame
  cases isSession
  exact ⟨rfl, rfl, rfl⟩

/-- All sessions that are reached are of the project and look for its files in the places of
the new one. -/
theorem IsReached.samePlaces
    {Admits : Session → Step → Prop}
    {start : Surroundings}
    {localPath project : Option Text}
    {fresh : Session}
    (isFresh : Session.make start localPath project = .ok fresh)
    {isGiven : Bool}
    (reached : IsReached Admits start localPath project isGiven session) :
    Config.SamePlaces fresh.toConfig session.toConfig ∧ session.IsSound := by
  induction reached with
  | make isMade =>
      rw [isFresh] at isMade
      cases isMade
      exact ⟨.refl _, .of_make isFresh⟩
  | ofSetting noLocalPath isMade =>
      rw [noLocalPath] at isFresh
      exact ⟨samePlaces_of_ofSetting isFresh isMade, .of_ofSetting isMade⟩
  | @step _ _ _ step _ inductionHypothesis =>
      obtain ⟨same, sound⟩ := inductionHypothesis
      exact ⟨same.trans (samePlaces_after sound step), sound.after step⟩

/-!
## Sessions with one configuration
-/

/-- Two settled sessions with one configuration, at work in one directory. -/
structure Agree (one other : Session) : Prop where
  settled : one.IsSettled
  otherSettled : other.IsSettled
  sameConfig : one.toConfig = other.toConfig
  sameDirectory : one.directory = other.directory

/-- Files around a session, which needs no more of its surroundings. -/
def around (session : Session) (files : FileTree) : Surroundings :=
  ⟨files, [], [], [], session.directory⟩

/-- The same is loaded in sessions that agree. -/
theorem Agree.load
    {one other : Session}
    (agree : Agree one other)
    (files : FileTree)
    (t : Text) :
    (one.load files t).2 = (other.load files t).2 ∧
      Agree (one.load files t).1 (other.load files t).1 := by
  have sameOutcome :
      Prod.map toConfig id (one.load files t) = Prod.map toConfig id (other.load files t) := by
    have ofOne := agree.settled.toConfig_load
      (rfl : (one.around files).directory = one.directory) t
    have ofOther := agree.otherSettled.toConfig_load
      (show (one.around files).directory = other.directory from agree.sameDirectory) t
    exact ofOne.trans (Eq.trans (by rw [agree.sameConfig]) ofOther.symm)
  obtain ⟨sameConfig, sameRest⟩ := Prod.ext_iff.mp sameOutcome
  refine ⟨sameRest, agree.settled.of_load files t, agree.otherSettled.of_load files t,
    sameConfig, ?_⟩
  rw [directory_load agree.settled.sound, directory_load agree.otherSettled.sound,
    agree.sameDirectory]

theorem Agree.loadEach
    {one other : Session}
    (agree : Agree one other)
    (files : FileTree)
    (ts : List Text) :
    Prod.map toConfig id (one.loadEach files ts) =
      Prod.map toConfig id (other.loadEach files ts) := by
  induction ts generalizing one other with
  | nil =>
      exact congrArg (·, none, []) agree.sameConfig
  | cons t ts inductionHypothesis =>
      have ofFirst := agree.load files t
      rw [Session.loadEach, Session.loadEach]
      revert ofFirst
      rcases one.load files t with ⟨after, failure?, logs⟩
      rcases other.load files t with ⟨otherAfter, otherFailure?, otherLogs⟩
      rintro ⟨sameOutcome, agreeAfter⟩
      cases sameOutcome
      cases failure? with
      | some failure =>
          exact congrArg (·, some failure, logs) agreeAfter.sameConfig
      | none =>
          have ofOthers := inductionHypothesis agreeAfter
          dsimp only at ofOthers ⊢
          revert ofOthers
          rcases after.loadEach files ts with ⟨last, outcome⟩
          rcases otherAfter.loadEach files ts with ⟨otherLast, otherOutcome⟩
          intro ofOthers
          obtain ⟨sameLast, sameOutcome⟩ := Prod.ext_iff.mp ofOthers
          obtain rfl : outcome = otherOutcome := sameOutcome
          exact congrArg (·, _) sameLast

/-- A new session that goes to the directory of another one agrees with what is left of this
when everything is forgotten. -/
theorem IsReached.agree_reset
    {start : Surroundings}
    (proper : start.directory.IsProper)
    {localPath project : Option Text}
    {fresh : Session}
    (isFresh : Session.make start localPath project = .ok fresh)
    {isGiven : Bool}
    (reached :
      IsReached (fun _ step => step.IsProper) start localPath project isGiven session) :
    Agree session.reset (fresh.after (.move session.directory)) := by
  have settled := Occurs.isSettled ⟨start, localPath, project, isGiven, proper, reached⟩
  have settledFresh := (IsSettled.of_make proper isFresh).1
  have isMade : Config.make start localPath project = .ok fresh.toConfig := by
    rw [← map_toConfig_make, isFresh]
    rfl
  have isReset : session.reset.toConfig = session.toConfig.reset := by
    rw [toConfig, toOptions_reset settled.sound.memory]
    rfl
  have ofReset := (reached.samePlaces isFresh).1.reset_eq isMade
  exact ⟨settled.reset, settledFresh.move settled.directory, isReset.trans ofReset, rfl⟩

end Session

namespace Config

/-- Loading one file takes the options that it and the files that it lists set, in the order
of their visits.  Loading the files of a configuration, whatever was done to it, does the
same as loading them into a new one in the same places.  So it is with a program that has its
configuration in memory. -/
theorem load_takes_files_in_order :
    ((∀ (surroundings : Surroundings) (config : Config) (path : AbsolutePath),
      surroundings.files.IsSound path → ¬ surroundings.files.HasCircle path →
        ∃ order loaded logs,
          config.load surroundings path = (loaded, none, logs) ∧
            Takes surroundings.files path order config loaded) ∧
    ∀ (start : Surroundings) (localPath project : Option Text) (fresh config : Config),
      make start localPath project = .ok fresh → SamePlaces fresh config →
        ∀ surroundings : Surroundings,
          config.loadConfigs surroundings =
            loadEach surroundings fresh
              [surroundings.directory.resolve fresh.globalPath, fresh.localPath]) ∧
    (∀ (session : Session) (files : FileTree) (t : Text) (path : AbsolutePath),
      session.Occurs → PathText.resolve session.directory t = .ok path →
        files.IsSound path → ¬ files.HasCircle path →
          ∃ order loaded logs,
            session.load files t = (loaded, none, logs) ∧
              Takes files path order session.toConfig loaded.toConfig) ∧
    ∀ (start : Surroundings) (localPath project : Option Text) (fresh session : Session)
      (isGiven : Bool),
      start.directory.IsProper → Session.make start localPath project = .ok fresh →
        Session.IsReached (fun _ step => step.IsProper) start localPath project isGiven session →
          ∀ files : FileTree,
            Prod.map Session.toConfig id (session.loadConfigs files) =
              Prod.map Session.toConfig id
                ((fresh.after (.move session.directory)).loadEach files
                  [fresh.globalPath, fresh.localPath.toText]) := by
  refine ⟨⟨fun _ config _ sound noCircle => takes_of_load sound noCircle config,
    fun _ _ _ _ _ isMade same surroundings => loadConfigs_of_samePlaces isMade same surroundings⟩,
    fun session files t path occurs isResolved sound noCircle => ?_,
    fun start localPath project fresh session isGiven proper isFresh reached files => ?_⟩
  · have ofLoad := occurs.isSettled.toConfig_load
      (rfl : (session.around files).directory = session.directory) t
    obtain ⟨order, config, logs, isLoaded, takes⟩ :=
      takes_of_load (show (session.around files).files.IsSound path from sound) noCircle
        session.toConfig
    have isFound : findPath (session.around files) t = .ok path := by
      change Except.mapError _ (PathText.resolve session.directory t) = _
      rw [isResolved]
      rfl
    rw [loadText, isFound] at ofLoad
    have sameLoad : Prod.map Session.toConfig id (session.load files t) = (config, none, logs) :=
      ofLoad.trans isLoaded
    rcases outcome : session.load files t with ⟨loaded, failure?, more⟩
    rw [outcome] at sameLoad
    cases sameLoad
    exact ⟨order, loaded, logs, rfl, takes⟩
  · obtain ⟨same, sound⟩ := reached.samePlaces isFresh
    have sameGlobal : session.globalPath = fresh.globalPath := same.globalPath
    have sameLocal : session.localPath = fresh.localPath := same.localPath
    rw [Session.loadConfigs_eq_loadEach sound, sameGlobal, sameLocal]
    exact (reached.agree_reset proper isFresh).loadEach files _

/-- A file sets what is appended to names and lists another one, which sets the path of the
module for both. -/
def overriding : Surroundings :=
  ofFiles
    [(⟨["a.toml"]⟩,
        "subconfigs = [\"b/b.toml\"]\n[generator]\nlocal_suffix = \"_a\"\noutput = \"a.py\""),
      (⟨["b", "b.toml"]⟩, "[generator]\noutput = \"b.py\"")]

theorem load_takes_files_in_order_overriding :
    (overriding.files.IsSound ⟨["a.toml"]⟩ ∧ ¬ overriding.files.HasCircle ⟨["a.toml"]⟩ ∧
      ∃ loaded logs,
        untouched.load overriding ⟨["a.toml"]⟩ = (loaded, none, logs) ∧
          loaded.stored.setOutput = some ⟨["b", "b.py"]⟩ ∧
            loaded.stored.setSuffix = some "_a") ∧
    (make overriding none none = .ok untouched ∧
      SamePlaces untouched (untouched.load overriding ⟨["a.toml"]⟩).1 ∧
        (untouched.load overriding ⟨["a.toml"]⟩).1.loadConfigs overriding =
          loadEach overriding untouched
            [overriding.directory.resolve untouched.globalPath, untouched.localPath]) ∧
    (Session.opened.Occurs ∧
      PathText.resolve Session.opened.directory "a.toml" = .ok ⟨["a.toml"]⟩ ∧
        ∃ loaded logs,
          Session.opened.load overriding.files "a.toml" = (loaded, none, logs) ∧
            loaded.toOptions.setOutput = some ⟨["b", "b.py"]⟩) ∧
    Session.make Session.misspelled none none = .ok Session.opened ∧
      ∃ session,
        Session.IsReached (fun _ step => step.IsProper) Session.misspelled none none true session ∧
          session.toOptions.setSuffix = some "_a" ∧
            Prod.map Session.toConfig id (session.loadConfigs overriding.files) =
              Prod.map Session.toConfig id
                ((Session.opened.after (.move session.directory)).loadEach overriding.files
                  [Session.opened.globalPath, Session.opened.localPath.toText]) := by
  obtain ⟨⟨ofLoad, ofConfigs⟩, ofSession, ofSessions⟩ := load_takes_files_in_order
  have closed : overriding.files.checkClosed [⟨["a.toml"]⟩, ⟨["b", "b.toml"]⟩] = true := by
    decide +kernel
  have sound : overriding.files.IsSound ⟨["a.toml"]⟩ :=
    FileTree.isSound_of_checkClosed closed List.mem_cons_self (by decide +kernel)
      (by decide +kernel)
  have found : overriding.files.findOrder 4 [⟨["a.toml"]⟩] =
      some [⟨["a.toml"]⟩, ⟨["b", "b.toml"]⟩] := by
    decide +kernel
  have visits := FileTree.visits_of_findOrder found
  have noCircle := visits.not_hasCircle _ (List.mem_singleton_self _)
  have isMade : make overriding none none = .ok untouched := by
    have isGlobal : globalPathOf overriding = .ok untouched.globalPath := by
      rfl
    have isDirectory : overriding.files.isDirectory overriding.directory = true := by
      decide +kernel
    simp only [make, isGlobal, bind, Except.bind, isDirectory, if_true]
    rfl
  have same := SamePlaces.of_load overriding untouched ⟨["a.toml"]⟩
  have occurs := Session.opened_arrives.occurs
  have isResolved : PathText.resolve Session.opened.directory "a.toml" = .ok ⟨["a.toml"]⟩ := by
    rfl
  obtain ⟨session, isSession⟩ :
      ∃ session, Session.opened.after (.load overriding.files "a.toml") = session := ⟨_, rfl⟩
  have isSuffix : session.toOptions.setSuffix = some "_a" := by
    rw [← isSession]
    decide +kernel
  have reached :
      Session.IsReached (fun _ step => step.IsProper) Session.misspelled none none true
        session := by
    rw [← isSession]
    refine @Session.IsReached.step _ _ _ _ _ _ (.make Session.make_misspelled)
      (.load overriding.files "a.toml") ?_
    trivial
  have sameLoads :=
    ofSessions _ _ _ _ _ _ (by decide) Session.make_misspelled reached overriding.files
  refine ⟨⟨sound, noCircle, ?_⟩,
    ⟨isMade, same, ofConfigs overriding none none untouched _ isMade same overriding⟩,
    ⟨occurs, isResolved, ?_⟩, Session.make_misspelled, session, reached, isSuffix, sameLoads⟩
  · obtain ⟨order, loaded, logs, isLoaded, takes⟩ :=
      ofLoad overriding untouched ⟨["a.toml"]⟩ sound noCircle
    rw [takes.visits.unique visits] at takes
    refine ⟨loaded, logs, isLoaded, ?_, ?_⟩
    · rw [takes.output]
      decide +kernel
    · rw [takes.localSuffix]
      decide +kernel
  · obtain ⟨order, loaded, logs, isLoaded, takes⟩ :=
      ofSession Session.opened overriding.files "a.toml" ⟨["a.toml"]⟩ occurs isResolved sound
        noCircle
    rw [takes.visits.unique visits] at takes
    have sameOutput : loaded.toOptions.setOutput = _ := takes.output
    refine ⟨loaded, logs, isLoaded, ?_⟩
    rw [sameOutput]
    decide +kernel

/-- A file sets what is appended to names and lists another one under a name that no file can
have. -/
def unheard : Surroundings :=
  ofFiles
    [(⟨["a.toml"]⟩,
      ("subconfigs = [\"" : Text) ++ longName ++ "\"]\n[generator]\nlocal_suffix = \"_a\"")]

/-- What a file sets is not taken, although it lists itself in no circle and all files that
are there are accepted. -/
theorem load_unheard_takes_nothing :
    (∀ path, ReflTransGen unheard.files.Lists ⟨["a.toml"]⟩ path →
      unheard.files.isFile path = true → unheard.files.IsAccepted path) ∧
    ¬ unheard.files.HasCircle ⟨["a.toml"]⟩ ∧
    unheard.files.Visits [⟨["a.toml"]⟩] [⟨["a.toml"]⟩] ∧
    unheard.files.lastSet Options.setSuffix [⟨["a.toml"]⟩] = some "_a" ∧
    (untouched.load unheard ⟨["a.toml"]⟩).1.stored.setSuffix = some "_" := by
  have closed : unheard.files.checkClosed [⟨["a.toml"]⟩, ⟨[longName]⟩] = true := by
    decide +kernel
  have accepted := FileTree.isAccepted_of_checkClosed closed List.mem_cons_self
    (by decide +kernel)
  have order : unheard.files.findOrder 3 [⟨["a.toml"]⟩] = some [⟨["a.toml"]⟩] := by
    decide +kernel
  have visits := FileTree.visits_of_findOrder order
  have listed : unheard.files.listed ⟨["a.toml"]⟩ = [⟨[longName]⟩] := by
    decide +kernel
  refine ⟨accepted, visits.not_hasCircle _ (List.mem_singleton_self _), visits,
    by decide +kernel, ?_⟩
  rw [load_of_refused (accepted _ .refl (by decide +kernel)) listed (by decide +kernel)
    (by decide +kernel) untouched]
  decide +kernel

end Config

/-!
## The configuration of an invocation
-/

namespace CommandLine

/-- An invocation has the configuration of a program that makes one and loads its files, if
the file of the user can be one. -/
theorem configOf_eq_loadConfigs
    {surroundings : Surroundings}
    (proper : surroundings.directory.IsProper)
    {configPath : Option Text}
    {fresh : Session}
    (isFresh : Session.make surroundings configPath none = .ok fresh)
    {globalPath : AbsolutePath}
    (isResolved : PathText.resolve surroundings.directory fresh.globalPath = .ok globalPath) :
    configOf surroundings configPath =
      match fresh.loadConfigs surroundings.files with
      | (session, none, logs) => (.ok session.toConfig, logs)
      | (_, some failure, logs) => (.error failure, logs) := by
  have settled := (Session.IsSettled.of_make proper isFresh).1
  have isThere : surroundings.directory = fresh.directory := by
    obtain ⟨_, -, isSession⟩ := bind_eq_ok_iff.mp isFresh
    cases isSession
    rfl
  have isMade : Config.make surroundings configPath none = .ok fresh.toConfig := by
    rw [← Session.map_toConfig_make, isFresh]
    rfl
  rw [isThere] at isResolved
  rw [configOf, isMade]
  dsimp only
  rw [← settled.toConfig_loadConfigs isThere isResolved]
  rcases fresh.loadConfigs surroundings.files with ⟨session, _ | failure, logs⟩ <;> rfl

/-- The options of a command line are given to a configuration as a program gives them to
its own. -/
theorem withGiven_toConfig
    {session : Session}
    (settled : session.IsSettled)
    (output suffix : Option Text) :
    withGiven session.toConfig output suffix =
      match givenOptions output suffix with
      | none => .ok session.toConfig
      | some setting =>
          match session.update setting [] with
          | (after, .ok _) => .ok after.toConfig
          | (_, .error failure) => .error failure := by
  rw [withGiven]
  cases givenOptions output suffix with
  | none =>
      rfl
  | some setting =>
      dsimp only
      rw [← settled.toConfig_update setting []]
      rcases session.update setting [] with ⟨after, failure | changes⟩ <;> rfl

end CommandLine

end ContractBindings
