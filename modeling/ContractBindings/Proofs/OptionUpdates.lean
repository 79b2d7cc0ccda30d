import ContractBindings.Proofs.OptionTrees
import ContractBindings.Proofs.SettledSessions

namespace ContractBindings

/-!
# Updates of options

An update merges a setting into the table that is handed out, removes options from it, and
accepts what is left.  If it succeeds, what it returns is exactly what has changed.  If it fails
on the way, the options that were accepted before stay in force, but the table keeps what was
done to it so far.

Main statements: `Session.update_returns_changes` and `Session.update_fails_halfway`.
-/

namespace Session

variable {session : Session}

/-!
## What an update does to the table
-/

/-- The table of options that is handed out. -/
def tree (session : Session) : OptionTree :=
  session.toOptions.tree

variable {setting : Setting} {removed : List (List Text)}

/-- A setting that is accepted is a table, and it sets what its entries write. -/
theorem exists_entries_of_accept
    {directory : AbsolutePath}
    {new : AcceptedOptions}
    (isAccepted : AcceptedOptions.accept directory setting = .ok new) :
    ∃ entries, setting = .table entries ∧ new.given = Options.written directory entries := by
  obtain ⟨options, isRead, rfl⟩ := AcceptedOptions.accept_eq_ok_iff.mp isAccepted
  have isRead := ConfigFailure.ofChecked_eq_ok_iff.mp isRead
  cases setting with
  | table entries =>
      exact ⟨entries, rfl, Options.eq_written_of_read isRead⟩
  | text | scalar | list =>
      cases isRead

/-- The table after an update that succeeds is the old one merged with what the setting sets,
without what was to be removed.  What the update returns turns the old table into the new one,
and it is empty exactly if nothing has changed. -/
theorem update_returns_changes
    (occurs : Occurs session)
    {after : Session}
    {changes : Options.Changes}
    (succeeds : session.update setting removed = (after, .ok changes)) :
    ∃ entries,
      setting = .table entries ∧
        after.tree =
            (session.tree.merge (Options.written session.project entries).tree).stripAll removed ∧
          session.tree.patch (.ofNode (Options.changesNode changes)) = after.tree ∧
            (Options.changesNode changes = .object [] ↔ after.toOptions = session.toOptions) := by
  have settled := occurs.isSettled
  have updates := updates_update settled.sound setting removed
  rw [succeeds] at updates
  cases updates with
  | @succeeds new isNew options isLeft accepted isAccepted =>
      obtain ⟨entries, isTable, isGiven⟩ := exists_entries_of_accept isNew
      rw [AcceptedOptions.accept_toSetting (settled.isProper_of_removeAll isNew isLeft)]
        at isAccepted
      cases isAccepted
      have isStored : toOptions { session with
            memory := session.memory.write session.stored options
            accepted := .complete session.project options } = options :=
        settled.sound.toOptions_write options
      have isTree : options.tree =
          (session.tree.merge (Options.written session.project entries).tree).stripAll
            removed := by
        rw [Options.tree_of_removeAll isLeft, Options.tree_merge, isGiven, tree]
      refine ⟨entries, isTable, ?_, ?_, ?_⟩
      · rw [tree, isStored, isTree]
      · rw [tree, tree, isStored]
        exact Options.patch_changesNode session.toOptions options
      · rw [isStored]
        exact Options.changesNode_eq_empty_iff

/-- A suffix and a file with further options. -/
def suffixSetting : Setting :=
  .table [("subconfigs", .list [.text "a.toml"]),
    ("generator", .table [("local_suffix", .text "_c")])]

theorem opened_occurs :
    opened.Occurs :=
  opened_arrives.occurs

/-- One option is set, one is changed and one is removed. -/
theorem update_returns_changes_suffix :
    ∃ after changes,
      opened.Occurs ∧
        opened.update suffixSetting [["generator", "output"]] = (after, .ok changes) ∧
          changes = ⟨.set [⟨["a.toml"]⟩], .changed ⟨.removed, .set "_c"⟩⟩ ∧
            after.toOptions = ⟨some [⟨["a.toml"]⟩], some ⟨none, some "_c"⟩⟩ ∧
              opened.tree.patch (.ofNode (Options.changesNode changes)) = after.tree ∧
                Options.changesNode changes ≠ .object [] := by
  have isChanged : (opened.update suffixSetting [["generator", "output"]]).2.toOption =
      some ⟨.set [⟨["a.toml"]⟩], .changed ⟨.removed, .set "_c"⟩⟩ := by
    decide +kernel
  have isStored : (opened.update suffixSetting [["generator", "output"]]).1.toOptions =
      ⟨some [⟨["a.toml"]⟩], some ⟨none, some "_c"⟩⟩ := by
    decide +kernel
  rcases succeeds : opened.update suffixSetting [["generator", "output"]] with
    ⟨after, failure | changes⟩
  · rw [succeeds] at isChanged
    cases isChanged
  · rw [succeeds] at isChanged isStored
    obtain ⟨entries, -, -, isPatched, isEmpty⟩ := update_returns_changes opened_occurs succeeds
    refine ⟨after, changes, opened_occurs, rfl, Option.some.inj isChanged, isStored, isPatched,
      fun noChanges => ?_⟩
    refine absurd (isStored.symm.trans (isEmpty.mp noChanges)) ?_
    decide +kernel

/-- Nothing but the table of options has changed, as far as anyone can tell. -/
structure KeepsAccepted (old new : Session) : Prop where
  accepted : new.accepted = old.accepted
  text : new.text = old.text
  stored : new.stored = old.stored
  loaded : new.loaded = old.loaded
  project : new.project = old.project
  globalPath : new.globalPath = old.globalPath
  localPath : new.localPath = old.localPath
  directory : new.directory = old.directory

/-- An update that fails keeps everything but the table.  The table stays as it was if the
setting is refused.  Otherwise it has been merged with what the setting sets and lacks what was
to be removed in front of the first path at which nothing can be removed. -/
theorem update_fails_halfway
    (occurs : Occurs session)
    {after : Session}
    {failure : ConfigFailure}
    (fails : session.update setting removed = (after, .error failure)) :
    KeepsAccepted session after ∧
      (AcceptedOptions.accept session.project setting = .error failure ∧
          IsUnchanged session after ∨
        ∃ entries done path rest fault,
          setting = .table entries ∧
            (AcceptedOptions.accept session.project setting).isOk = true ∧
              removed = done ++ path :: rest ∧ failure = .fault fault ∧
                after.tree =
                    (session.tree.merge (Options.written session.project entries).tree).stripAll
                      done ∧
                  after.tree.refusal? path = some fault) := by
  have settled := occurs.isSettled
  have updates := updates_update settled.sound setting removed
  rw [fails] at updates
  cases updates with
  | refused isRefused =>
      exact ⟨⟨rfl, rfl, rfl, rfl, rfl, rfl, rfl, rfl⟩, Or.inl ⟨isRefused,
        rfl, rfl, fun _ _ => rfl, rfl, rfl, rfl, rfl, rfl, rfl, rfl, rfl, rfl⟩⟩
  | @fails new isNew options fault? isLeft failure isRefused =>
      refine ⟨⟨rfl, rfl, rfl, rfl, rfl, rfl, rfl, rfl⟩, Or.inr ?_⟩
      obtain ⟨entries, isTable, isGiven⟩ := exists_entries_of_accept isNew
      -- What is left can always be accepted, so that the failure is one of removing.
      rcases isRefused with ⟨fault, isFault, rfl⟩ | ⟨-, isRefused⟩
      · cases isFault
        obtain ⟨done, path, rest, isRemoved, isTree, atPath⟩ :=
          Options.exists_refusal_of_removeAll isLeft
        have isStored := settled.sound.toOptions_write options
        refine ⟨entries, done, path, rest, fault, isTable, by rw [isNew]; rfl, isRemoved, rfl,
          ?_, ?_⟩
        · rw [tree, isStored, isTree, Options.tree_merge, isGiven, tree]
        · rw [tree, isStored]
          exact atPath
      · rw [AcceptedOptions.accept_toSetting (settled.isProper_of_removeAll isNew isLeft)]
          at isRefused
        cases isRefused

/-- A path at which nothing can be removed comes after one at which something is. -/
theorem update_fails_halfway_suffix :
    ∃ after failure,
      opened.Occurs ∧
        opened.update suffixSetting [["generator", "output"], ["subconfigs", "0"]] =
            (after, .error failure) ∧
          after.toOptions = ⟨some [⟨["a.toml"]⟩], some ⟨none, some "_c"⟩⟩ ∧
            failure = .fault .wrongKind ∧ KeepsAccepted opened after := by
  have isStored :
      (opened.update suffixSetting [["generator", "output"], ["subconfigs", "0"]]).1.toOptions =
        ⟨some [⟨["a.toml"]⟩], some ⟨none, some "_c"⟩⟩ := by
    decide +kernel
  have failed : (opened.update suffixSetting
      [["generator", "output"], ["subconfigs", "0"]]).2 = .error (.fault .wrongKind) := by
    rfl
  rcases fails : opened.update suffixSetting [["generator", "output"], ["subconfigs", "0"]] with
    ⟨after, failure | changes⟩
  · rw [fails] at failed isStored
    exact ⟨after, failure, opened_occurs, rfl, isStored, Except.error.inj failed,
      (update_fails_halfway opened_occurs fails).1⟩
  · rw [fails] at failed
    cases failed

/-- An update without a path to remove fails after the options were merged. -/
theorem update_fails_changed :
    opened.Occurs ∧
      ∃ failure,
        (opened.update suffixSetting [[]]).2 = .error failure ∧
          (opened.update suffixSetting [[]]).1.toOptions ≠ opened.toOptions ∧
            (opened.update suffixSetting [[]]).1.accepted.localSuffix = "_" ∧
              (opened.update suffixSetting [[]]).1.toOptions.localSuffix = "_c" := by
  have failed : (opened.update suffixSetting [[]]).2 = .error (.fault .noElement) := by
    rfl
  exact ⟨opened_occurs, _, failed, by decide +kernel, by decide +kernel, by decide +kernel⟩

end Session

end ContractBindings
