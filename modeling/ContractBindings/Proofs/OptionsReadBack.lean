import ContractBindings.Config.Session
import ContractBindings.Proofs.LoadedOptions
import ContractBindings.Proofs.ResolvedPaths

namespace ContractBindings

/-!
# Options that are read back

All paths among options are resolved before they are kept, so options that were accepted
once, in whatever directory, are accepted again as they are.  Merging and removing options
keeps this.

Main statement: `AcceptedOptions.accept_toSetting`.
-/

namespace Options

/-- Options whose paths are resolved and whose suffix may be set. -/
structure IsProper (options : Options) : Prop where
  subconfigs : ∀ paths ∈ options.subconfigs, ∀ path ∈ paths, path.IsProper
  output : ∀ path ∈ options.setOutput, path.IsProper
  localSuffix : ∀ suffix ∈ options.setSuffix, isSuffix suffix = true

variable {options old new : Options} {directory : AbsolutePath} {setting : Setting}

/-!
## Options that are accepted
-/

/-- What an entry sets was read from it. -/
theorem exists_of_readOption
    {entries : Keyed Setting}
    {name : Text}
    {read : Setting → Checked α}
    {option : Option α}
    (accepted : readOption entries name read = .accepted option)
    {a : α}
    (isSet : a ∈ option) :
    ∃ setting, read setting = .accepted a := by
  rw [readOption] at accepted
  split at accepted
  case h_1 setting _ =>
    simp only [Checked.map_eq_accepted_iff, Checked.within_eq_accepted_iff] at accepted
    obtain ⟨_, isRead, rfl⟩ := accepted
    cases isSet
    exact ⟨setting, isRead⟩
  case h_2 =>
    cases accepted
    cases isSet

theorem isProper_of_readPath
    (proper : directory.IsProper)
    {path : AbsolutePath}
    (accepted : readPath directory setting = .accepted path) :
    path.IsProper := by
  cases setting with
  | text t =>
      rw [readPath] at accepted
      split at accepted
      case h_1 resolved =>
        cases accepted
        exact AbsolutePath.isProper_of_resolve proper resolved
      case h_2 =>
        cases accepted
  | scalar | list | table =>
      cases accepted

theorem isProper_of_readPaths
    (proper : directory.IsProper)
    {paths : List AbsolutePath}
    (accepted : readPaths directory setting = .accepted paths) :
    ∀ path ∈ paths, path.IsProper := by
  cases setting with
  | list settings =>
      rw [readPaths, Checked.indexed_eq_accepted_iff, List.forall₂_map_left_iff] at accepted
      intro path isPath
      obtain ⟨setting, -, isRead⟩ := exists_of_forall₂ accepted isPath
      exact isProper_of_readPath proper isRead
  | scalar | text | table =>
      cases accepted

theorem isSuffix_of_readSuffix
    {suffix : Text}
    (accepted : readSuffix setting = .accepted suffix) :
    isSuffix suffix = true := by
  cases setting with
  | text t =>
      rw [readSuffix] at accepted
      split at accepted
      case isTrue isSuffix =>
        cases accepted
        exact isSuffix
      case isFalse =>
        cases accepted
  | scalar | list | table =>
      cases accepted

/-- The options of the generator are a proper path and a suffix that may be set. -/
theorem isProper_isSuffix_of_readGenerator
    {generator : GeneratorOptions}
    (accepted : readGenerator directory setting = .accepted generator) :
    (directory.IsProper → ∀ path ∈ generator.output, path.IsProper) ∧
      ∀ suffix ∈ generator.localSuffix, isSuffix suffix = true := by
  cases setting with
  | table entries =>
      simp only [readGenerator, Checked.apply_eq_accepted_iff,
        Checked.map_eq_accepted_iff] at accepted
      obtain ⟨_, _, ⟨_, suffix, ⟨output, isOutput, rfl⟩, isSuffix, rfl⟩, -, rfl⟩ := accepted
      refine ⟨fun proper path isPath => ?_, fun suffix isSet => ?_⟩
      · obtain ⟨setting, isRead⟩ := exists_of_readOption isOutput isPath
        exact isProper_of_readPath proper isRead
      · obtain ⟨setting, isRead⟩ := exists_of_readOption isSuffix isSet
        exact isSuffix_of_readSuffix isRead
  | scalar | text | list =>
      cases accepted

/-- Options that are read in a directory are proper. -/
theorem isProper_of_read
    (proper : directory.IsProper)
    (accepted : read directory setting = .accepted options) :
    options.IsProper := by
  cases setting with
  | table entries =>
      simp only [read, Checked.apply_eq_accepted_iff, Checked.map_eq_accepted_iff] at accepted
      obtain ⟨_, _, ⟨_, generator?, ⟨subconfigs, isSubconfigs, rfl⟩, isGenerator, rfl⟩, -, rfl⟩ :=
        accepted
      have ofGenerator : ∀ generator ∈ generator?,
          (∀ path ∈ generator.output, path.IsProper) ∧
            ∀ suffix ∈ generator.localSuffix, isSuffix suffix = true := by
        intro generator isSet
        obtain ⟨setting, isRead⟩ := exists_of_readOption isGenerator isSet
        exact (isProper_isSuffix_of_readGenerator isRead).imp_left fun ofOutput => ofOutput proper
      refine ⟨fun paths isSet => ?_, ?_, ?_⟩
      · obtain ⟨setting, isRead⟩ := exists_of_readOption isSubconfigs isSet
        exact isProper_of_readPaths proper isRead
      · intro path isPath
        obtain ⟨generator, isSet, isOutput⟩ := Option.bind_eq_some_iff.mp isPath
        exact (ofGenerator generator isSet).1 path isOutput
      · intro suffix isSuffix
        obtain ⟨generator, isSet, isLocal⟩ := Option.bind_eq_some_iff.mp isSuffix
        exact (ofGenerator generator isSet).2 suffix isLocal
  | scalar | text | list =>
      cases accepted

/-!
## Options that are merged and removed
-/

theorem IsProper.merge
    (proper : old.IsProper)
    (properNew : new.IsProper) :
    (old.merge new).IsProper := by
  refine ⟨fun paths isSet => ?_, fun path isSet => ?_, fun suffix isSet => ?_⟩
  · rw [merge_subconfigs] at isSet
    rcases Option.or_eq_some_iff.mp isSet with isNew | ⟨-, isOld⟩
    · exact properNew.subconfigs paths isNew
    · exact proper.subconfigs paths isOld
  · rw [merge_setOutput] at isSet
    rcases Option.or_eq_some_iff.mp isSet with isNew | ⟨-, isOld⟩
    · exact properNew.output path isNew
    · exact proper.output path isOld
  · rw [merge_setSuffix] at isSet
    rcases Option.or_eq_some_iff.mp isSet with isNew | ⟨-, isOld⟩
    · exact properNew.localSuffix suffix isNew
    · exact proper.localSuffix suffix isOld

/-- Some options of others, and nothing else. -/
structure IsPart (part options : Options) : Prop where
  subconfigs : ∀ paths ∈ part.subconfigs, paths ∈ options.subconfigs
  output : ∀ path ∈ part.setOutput, path ∈ options.setOutput
  localSuffix : ∀ suffix ∈ part.setSuffix, suffix ∈ options.setSuffix

theorem IsPart.isProper
    (isPart : new.IsPart old)
    (proper : old.IsProper) :
    new.IsProper :=
  ⟨fun paths isSet => proper.subconfigs paths (isPart.subconfigs paths isSet),
    fun path isSet => proper.output path (isPart.output path isSet),
    fun suffix isSet => proper.localSuffix suffix (isPart.localSuffix suffix isSet)⟩

theorem isPart_of_removeAt
    {key : Text}
    {spot : Spot}
    (removed : options.removeAt key spot = .ok new) :
    new.IsPart options := by
  obtain ⟨subconfigs, generator?⟩ := options
  cases spot with
  | all =>
      rw [removeAt] at removed
      split at removed
      · cases removed
        exact ⟨fun _ => id, nofun, nofun⟩
      split at removed <;> cases removed
      · exact ⟨nofun, fun _ => id, fun _ => id⟩
      · exact ⟨fun _ => id, fun _ => id, fun _ => id⟩
  | generator =>
      cases removed
      cases generator? with
      | none =>
          exact ⟨fun _ => id, nofun, nofun⟩
      | some generator =>
          refine ⟨fun _ => id, ?_, ?_⟩
          all_goals
            simp only [setOutput, setSuffix, Option.map_some, Option.bind_some]
            split
            · simp
            split <;> simp
  | nowhere =>
      cases removed
      exact ⟨fun _ => id, fun _ => id, fun _ => id⟩
  | subconfigs | value =>
      cases removed

theorem IsProper.removeAll
    (proper : options.IsProper)
    (paths : List (List Text)) :
    (options.removeAll paths).1.IsProper := by
  induction paths generalizing options with
  | nil =>
      exact proper
  | cons path paths inductionHypothesis =>
      rw [Options.removeAll]
      split
      case h_1 new removed =>
        obtain ⟨spot, -, ofSpot⟩ := bind_eq_ok_iff.mp removed
        split at ofSpot
        case h_1 =>
          exact inductionHypothesis ((isPart_of_removeAt ofSpot).isProper proper)
        case h_2 =>
          cases ofSpot
      case h_2 =>
        exact proper

/-!
## Reading options back
-/

/-- An option is read back from its entry. -/
theorem readOption_of_get?
    {entries : Keyed Setting}
    {name : Text}
    {read : Setting → Checked α}
    {write : α → Setting}
    {option : Option α}
    (found : entries.get? name = option.map write)
    (isReadBack : ∀ a ∈ option, read (write a) = .accepted a) :
    readOption entries name read = .accepted option := by
  rw [readOption, found]
  cases option with
  | none =>
      rfl
  | some a =>
      dsimp only [Option.map_some]
      rw [isReadBack a rfl]
      rfl

theorem get?_entry
    (key name : Text)
    (write : α → Setting)
    (option : Option α) :
    Keyed.get? key (entry name write option) = if key = name then option.map write else .none := by
  cases option with
  | none =>
      exact (ite_self _).symm
  | some a =>
      by_cases same : key = name <;> simp [Keyed.get?, entry, same]

/-- An option is read from the first one of two entries with different names. -/
theorem get?_first
    {first second : Text}
    (differ : first ≠ second)
    (write : α → Setting)
    (option : Option α)
    (writeOther : β → Setting)
    (other : Option β) :
    Keyed.get? first (entry first write option ++ entry second writeOther other) =
      option.map write := by
  rw [Keyed.get?, List.lookup_append, ← Keyed.get?, ← Keyed.get?, get?_entry, get?_entry,
    if_pos rfl, if_neg differ, Option.or_none]

theorem get?_second
    {first second : Text}
    (differ : first ≠ second)
    (write : α → Setting)
    (option : Option α)
    (writeOther : β → Setting)
    (other : Option β) :
    Keyed.get? second (entry first write option ++ entry second writeOther other) =
      other.map writeOther := by
  rw [Keyed.get?, List.lookup_append, ← Keyed.get?, ← Keyed.get?, get?_entry, get?_entry,
    if_pos rfl, if_neg differ.symm, Option.none_or]

/-- Nothing is refused of entries with known names. -/
theorem refuseOthers_entry
    (first second : Text)
    (write : α → Setting)
    (option : Option α)
    (writeOther : β → Setting)
    (other : Option β) :
    refuseOthers [first, second] (entry first write option ++ entry second writeOther other) =
      .accepted () := by
  cases option <;> cases other <;>
    simp [refuseOthers, entry, Checked.all, Checked.map, Checked.apply]

theorem readPath_pathSetting
    {path : AbsolutePath}
    (proper : path.IsProper)
    (directory : AbsolutePath) :
    readPath directory (pathSetting path) = .accepted path := by
  rw [pathSetting, readPath, AbsolutePath.resolve_toText proper]

theorem readPaths_pathsSetting
    {paths : List AbsolutePath}
    (proper : ∀ path ∈ paths, path.IsProper)
    (directory : AbsolutePath) :
    readPaths directory (pathsSetting paths) = .accepted paths := by
  rw [pathsSetting, readPaths, Checked.indexed_eq_accepted_iff, List.map_map,
    List.forall₂_map_left_iff, List.forall₂_same]
  exact fun path isPath => readPath_pathSetting (proper path isPath) directory

theorem readSuffix_text
    {suffix : Text}
    (isAllowed : isSuffix suffix = true) :
    readSuffix (.text suffix) = .accepted suffix :=
  if_pos isAllowed

theorem readGenerator_generatorSetting
    {generator : GeneratorOptions}
    (properOutput : ∀ path ∈ generator.output, path.IsProper)
    (properSuffix : ∀ suffix ∈ generator.localSuffix, isSuffix suffix = true)
    (directory : AbsolutePath) :
    readGenerator directory (generatorSetting generator) = .accepted generator := by
  have ofOutput := readOption_of_get?
    (get?_first (by decide : Text.ofString "output" ≠ "local_suffix") pathSetting
      generator.output .text generator.localSuffix)
    fun path isPath => readPath_pathSetting (properOutput path isPath) directory
  have ofSuffix := readOption_of_get?
    (get?_second (by decide : Text.ofString "output" ≠ "local_suffix") pathSetting
      generator.output .text generator.localSuffix)
    fun suffix isSet => readSuffix_text (properSuffix suffix isSet)
  have ofOthers := refuseOthers_entry "output" "local_suffix" pathSetting generator.output
    .text generator.localSuffix
  rw [generatorSetting, readGenerator, ofOutput, ofSuffix, ofOthers]
  rfl

/-- Proper options are read back as they are. -/
theorem read_toSetting
    (proper : options.IsProper)
    (directory : AbsolutePath) :
    read directory options.toSetting = .accepted options := by
  have ofSubconfigs := readOption_of_get?
    (get?_first (by decide : Text.ofString "subconfigs" ≠ "generator") pathsSetting
      options.subconfigs generatorSetting options.generator)
    fun paths isSet => readPaths_pathsSetting (proper.subconfigs paths isSet) directory
  have ofGenerator := readOption_of_get?
    (get?_second (by decide : Text.ofString "subconfigs" ≠ "generator") pathsSetting
      options.subconfigs generatorSetting options.generator)
    fun generator isSet => readGenerator_generatorSetting
      (fun path isPath => proper.output path (Option.bind_eq_some_iff.mpr ⟨_, isSet, isPath⟩))
      (fun suffix isSuffix =>
        proper.localSuffix suffix (Option.bind_eq_some_iff.mpr ⟨_, isSet, isSuffix⟩)) directory
  have ofOthers := refuseOthers_entry "subconfigs" "generator" pathsSetting options.subconfigs
    generatorSetting options.generator
  rw [toSetting, read, ofSubconfigs, ofGenerator, ofOthers]
  rfl

end Options

namespace AcceptedOptions

variable {directory : AbsolutePath}

/-- Proper options are accepted again as they are. -/
theorem accept_toSetting
    {options : Options}
    (proper : options.IsProper)
    (directory : AbsolutePath) :
    accept directory options.toSetting = .ok (complete directory options) := by
  rw [accept, Options.read_toSetting proper]
  rfl

/-- The defaults of a proper directory are proper options. -/
theorem isProper_all_complete
    (proper : directory.IsProper) :
    (complete directory .none).all.IsProper := by
  refine ⟨fun paths isSet => ?_, fun path isSet => ?_, fun suffix isSet => ?_⟩
  · cases isSet
    exact List.forall_mem_nil _
  · cases isSet
    exact proper.child (by decide)
  · cases isSet
    exact (by decide : Options.isSuffix Options.defaultSuffix = true)

end AcceptedOptions

end ContractBindings
