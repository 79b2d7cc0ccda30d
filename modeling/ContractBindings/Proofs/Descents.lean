import ContractBindings.Config.Session
import ContractBindings.Proofs.OptionFiles
import ContractBindings.Proofs.OptionMemory
import ContractBindings.Proofs.Steps

namespace ContractBindings

/-!
# Descents into files

While files are loaded, a program changes directories and writes into its memory.  Each part
of this writes only at the place that the descent made for itself, comes back to the
directory that it was begun in, and leads to the options, the files and the failure that are
told without memory and directories.

Main statement: `Descent.follows_loadFile`.
-/

namespace AcceptedOptions

variable {directory : AbsolutePath} {setting : Setting}

/-- What is accepted are the options that are read, completed in the directory. -/
theorem accept_eq_ok_iff
    {accepted : AcceptedOptions} :
    accept directory setting = .ok accepted ↔
      ∃ options,
        ConfigFailure.ofChecked (Options.read directory setting) = .ok options ∧
          complete directory options = accepted := by
  rw [accept]
  cases ConfigFailure.ofChecked (Options.read directory setting) with
  | error failure =>
      exact iff_of_false nofun nofun
  | ok options =>
      simp [Except.map]

theorem accept_eq_error_iff
    {failure : ConfigFailure} :
    accept directory setting = .error failure ↔
      ConfigFailure.ofChecked (Options.read directory setting) = .error failure := by
  rw [accept]
  cases ConfigFailure.ofChecked (Options.read directory setting) <;> simp [Except.map]

end AcceptedOptions

namespace Descent

variable {old : Memory} {descent before : Descent} {files : FileTree}

/-- A descent that writes only at a place that it made for itself, above an old memory. -/
structure Keeps (old : Memory) (descent : Descent) : Prop where
  isExtended : old.Extends descent.memory descent.target
  sound : descent.memory.IsSound
  isMade : descent.target < descent.memory.tables.length

/-- What a part of a descent comes to: it keeps what was there, is back where it was begun,
and has led to what was expected. -/
structure Follows (old : Memory) (before : Descent)
    (outcome : Descent × Option ConfigFailure)
    (expected : Config.Loading × Option ConfigFailure) : Prop where
  keeps : outcome.1.Keeps old
  target : outcome.1.target = before.target
  directory : outcome.1.directory = before.directory
  loading : outcome.1.toLoading = expected.1
  failure : outcome.2 = expected.2

/-- Options are merged at the place of the descent. -/
theorem Keeps.merge
    (keeps : descent.Keeps old)
    (options : Options) :
    (descent.merge options).Keeps old :=
  ⟨keeps.isExtended.write keeps.isMade _, keeps.sound.write _ _,
    (Memory.length_tables_write _ _ _).symm ▸ keeps.isMade⟩

theorem Keeps.toLoading_merge
    (keeps : descent.Keeps old)
    (options : Options) :
    (descent.merge options).toLoading =
      { descent.toLoading with options := descent.toLoading.options.merge options } := by
  have isRead : (descent.merge options).memory.read descent.target =
      (descent.memory.read descent.target).merge options :=
    Memory.read_write keeps.sound keeps.isMade _
  rw [toLoading, toLoading, ← isRead]
  rfl

/-- The options of a file are taken in the directory of the file. -/
theorem takeOptions_cases
    {path : AbsolutePath}
    (isInside : descent.directory = path.parent)
    (entries : Keyed Setting) :
    (∃ failure,
      descent.takeOptions entries = .error failure ∧
        descent.toLoading.takeOptions path entries = .error failure) ∨
    ∃ options,
      descent.takeOptions entries = .ok (descent.merge options, options.subconfigs.getD []) ∧
        descent.toLoading.takeOptions path entries =
          .ok ({ descent.toLoading with
            options := descent.toLoading.options.merge options },
            options.subconfigs.getD []) := by
  have sameLinks : descent.toLoading.links = descent.links := rfl
  rw [takeOptions, Config.Loading.takeOptions, isInside, sameLinks]
  cases isOpen : (Config.Loading.onCycles descent.links).isEmpty with
  | false =>
      exact .inl ⟨_, rfl, rfl⟩
  | true =>
      cases isRead :
          ConfigFailure.ofChecked (Options.read path.parent (.table entries)) with
      | error failure =>
          rw [AcceptedOptions.accept_eq_error_iff.mpr isRead]
          exact .inl ⟨failure, rfl, rfl⟩
      | ok options =>
          rw [AcceptedOptions.accept_eq_ok_iff.mpr ⟨options, isRead, rfl⟩]
          exact .inr ⟨options, rfl, rfl⟩

/-- What is done in another directory is done from there, and then the program is back. -/
theorem Follows.of_inside
    {directory : AbsolutePath}
    {act : Descent → Descent × Option ConfigFailure}
    {expected : Config.Loading × Option ConfigFailure}
    (follows : Follows old { before with directory } (act { before with directory }) expected) :
    Follows old before (before.inside directory act) expected :=
  ⟨⟨follows.keeps.isExtended, follows.keeps.sound, follows.keeps.isMade⟩, follows.target, rfl,
    follows.loading, follows.failure⟩

/-- If one file after another is followed, so are all of them. -/
theorem follows_each
    {fuel : Nat}
    {parent : AbsolutePath}
    {act : AbsolutePath → Descent → Descent × Option ConfigFailure}
    (ofEach :
      ∀ path descent, descent.Keeps old →
        Follows old descent (act path descent)
          (Config.Loading.loadFile files fuel (some parent) path descent.toLoading))
    (paths : List AbsolutePath)
    (keeps : descent.Keeps old) :
    Follows old descent (each act paths descent)
      (Config.Loading.loadFiles files fuel parent paths descent.toLoading) := by
  induction paths generalizing descent with
  | nil =>
      rw [each, Config.Loading.loadFiles]
      exact ⟨keeps, rfl, rfl, rfl, rfl⟩
  | cons path paths inductionHypothesis =>
      have ofFirst := ofEach path descent keeps
      rw [each, Config.Loading.loadFiles]
      revert ofFirst
      rcases act path descent with ⟨after, failure?⟩
      rcases Config.Loading.loadFile files fuel (some parent) path descent.toLoading with
        ⟨loading, expected?⟩
      rintro ⟨keepsAfter, target, directory, rfl, rfl⟩
      cases failure? with
      | some failure =>
          exact ⟨keepsAfter, target, directory, rfl, rfl⟩
      | none =>
          have ofOthers := inductionHypothesis keepsAfter
          exact ⟨ofOthers.keeps, ofOthers.target.trans target,
            ofOthers.directory.trans directory, ofOthers.loading, ofOthers.failure⟩

/-- A file is loaded as is told without memory and directories, and nothing that was there
before is changed by it. -/
theorem follows_loadFile
    (files : FileTree)
    (fuel : Nat)
    (parent : Option AbsolutePath)
    (path : AbsolutePath)
    (keeps : descent.Keeps old) :
    Follows old descent (descent.loadFile files fuel parent path)
      (Config.Loading.loadFile files fuel parent path descent.toLoading) := by
  induction fuel generalizing parent path descent with
  | zero =>
      rw [loadFile, Config.Loading.loadFile]
      exact ⟨keeps, rfl, rfl, rfl, rfl⟩
  | succ fuel inductionHypothesis =>
      rw [loadFile, Config.Loading.loadFile]
      cases isText : files.read? path with
      | none =>
          dsimp only
          split <;> exact ⟨⟨keeps.isExtended, keeps.sound, keeps.isMade⟩, rfl, rfl, rfl, rfl⟩
      | some text =>
          refine Follows.of_inside ?_
          dsimp only
          have isLoading :
              descent.toLoading = toLoading { descent with directory := path.parent } := rfl
          have keepsInside : Keeps old { descent with directory := path.parent } :=
            ⟨keeps.isExtended, keeps.sound, keeps.isMade⟩
          rw [isLoading]
          generalize inside : ({ descent with directory := path.parent } : Descent) = here
            at keepsInside
          have isInside : here.directory = path.parent := inside ▸ rfl
          cases isRead : Toml.read text with
          | error failure =>
              cases failure <;> exact ⟨keepsInside, rfl, rfl, rfl, rfl⟩
          | ok entries =>
              have keepsVisited : (here.visit parent path).Keeps old :=
                ⟨keepsInside.isExtended, keepsInside.sound, keepsInside.isMade⟩
              have isVisited :
                  here.toLoading.visit parent path = (here.visit parent path).toLoading := rfl
              dsimp only
              rw [isVisited]
              have isInsideStill : (here.visit parent path).directory = path.parent := isInside
              rcases takeOptions_cases isInsideStill entries with
                ⟨failure, isRefused, isExpected⟩ | ⟨options, isTaken, isExpected⟩
              · rw [isRefused, isExpected]
                exact ⟨keepsVisited, rfl, rfl, rfl, rfl⟩
              · rw [isTaken, isExpected, ← keepsVisited.toLoading_merge]
                have ofListed := follows_each
                  (fun listed descent keeps => inductionHypothesis (some path) listed keeps)
                  (options.subconfigs.getD []) (keepsVisited.merge options)
                exact ⟨ofListed.keeps, ofListed.target, ofListed.directory, ofListed.loading,
                  ofListed.failure⟩

end Descent

end ContractBindings
