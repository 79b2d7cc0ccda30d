import ContractBindings.Config.Session
import ContractBindings.Proofs.ResolvedPaths

namespace ContractBindings

/-!
# Sessions that a program comes to

A program makes a configuration, with options or without, and takes steps: it loads files,
updates options and goes to other directories.  Which steps are admitted is a parameter: all of
them, those that lead to resolved directories, or of these the ones that succeed.
-/

namespace Session

/-- What a program does with a configuration that it has. -/
inductive Step where
  | load (files : FileTree) (t : Text)
  | loadConfigs (files : FileTree)
  | update (setting : Setting) (removed : List (List Text))
  /-- The program goes to another directory by itself. -/
  | move (directory : AbsolutePath)

namespace Step

/-- Whether a step takes options. -/
def takesOptions : Step → Bool
  | .move _ => false
  | _ => true

/-- The path of a directory that a program goes to has neither dots nor empty parts in it. -/
def IsProper : Step → Prop
  | .move directory => directory.IsProper
  | _ => True

end Step

/-- What a step leaves, whether it succeeds or not. -/
def after (session : Session) : Step → Session
  | .load files t => (session.load files t).1
  | .loadConfigs files => (session.loadConfigs files).1
  | .update setting removed => (session.update setting removed).1
  | .move directory => { session with directory }

/-- Whether a step succeeds. -/
def Succeeds (session : Session) : Step → Prop
  | .load files t => (session.load files t).2.1 = none
  | .loadConfigs files => (session.loadConfigs files).2.1 = none
  | .update setting removed => (session.update setting removed).2.isOk = true
  | .move _ => True

/-- The sessions that a program comes to by steps that are admitted, from a configuration that
it makes in some surroundings.  They are told apart by whether options were taken, if only
none. -/
inductive IsReached (Admits : Session → Step → Prop) (start : Surroundings)
    (localPath project : Option Text) : (isGiven : Bool) → Session → Prop where
  | make
      {session : Session}
      (isMade : make start localPath project = .ok session) :
      IsReached Admits start localPath project false session
  | ofSetting
      {session : Session}
      {setting : Setting}
      (noLocalPath : localPath = none)
      (isMade : ofSetting start setting project = .ok session) :
      IsReached Admits start localPath project true session
  | step
      {isGiven : Bool}
      {session : Session}
      (reached : IsReached Admits start localPath project isGiven session)
      {step : Step}
      (isAdmitted : Admits session step) :
      IsReached Admits start localPath project (isGiven || step.takesOptions)
        (session.after step)

variable {isGiven : Bool} {session : Session}

/-- More is reached if more steps are admitted. -/
theorem IsReached.mono
    {First Second : Session → Step → Prop}
    (weaker : ∀ session step, First session step → Second session step)
    {start : Surroundings}
    {localPath project : Option Text}
    (reached : IsReached First start localPath project isGiven session) :
    IsReached Second start localPath project isGiven session := by
  induction reached with
  | make isMade =>
      exact .make isMade
  | ofSetting noLocalPath isMade =>
      exact .ofSetting noLocalPath isMade
  | step _ isAdmitted inductionHypothesis =>
      exact inductionHypothesis.step (weaker _ _ isAdmitted)

/-- The sessions that can be reached, with any files at each load and whether steps succeed or
not. -/
def IsReachable (session : Session) : Prop :=
  ∃ start localPath project isGiven,
    IsReached (fun _ _ => True) start localPath project isGiven session

/-- The sessions that occur, where all directories that a program works in are resolved. -/
def Occurs (session : Session) : Prop :=
  ∃ start localPath project isGiven,
    start.directory.IsProper ∧
      IsReached (fun _ step => step.IsProper) start localPath project isGiven session

/-- The sessions that a program arrives at if every step succeeds. -/
def Arrives (isGiven : Bool) (session : Session) : Prop :=
  ∃ start localPath project,
    start.directory.IsProper ∧
      IsReached (fun session step => step.IsProper ∧ session.Succeeds step) start localPath project
        isGiven session

theorem Occurs.isReachable
    (occurs : Occurs session) :
    IsReachable session := by
  obtain ⟨start, localPath, project, isGiven, -, reached⟩ := occurs
  exact ⟨start, localPath, project, isGiven, reached.mono fun _ _ _ => trivial⟩

theorem Arrives.occurs
    (arrives : Arrives isGiven session) :
    Occurs session := by
  obtain ⟨start, localPath, project, proper, reached⟩ := arrives
  exact ⟨start, localPath, project, isGiven, proper, reached.mono fun _ _ => And.left⟩

/-- One more step that succeeds leads on. -/
theorem Arrives.step
    (arrives : Arrives isGiven session)
    {step : Step}
    (proper : step.IsProper)
    (succeeds : session.Succeeds step) :
    Arrives (isGiven || step.takesOptions) (session.after step) := by
  obtain ⟨start, localPath, project, properStart, reached⟩ := arrives
  exact ⟨start, localPath, project, properStart, reached.step ⟨proper, succeeds⟩⟩

end Session

end ContractBindings
