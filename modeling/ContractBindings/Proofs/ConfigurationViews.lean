import ContractBindings.Proofs.DescribedTypes
import ContractBindings.Proofs.LoadedSessions
import ContractBindings.Proofs.WrittenDocuments

namespace ContractBindings

/-!
# Views of a configuration

A configuration hands out its options as a table and as a document, and the options of the
generator with their defaults.  The table is changed first and the others are taken from what
is accepted afterwards.

Main statement: `Session.views_agree`.
-/

/-!
## Options as documents
-/

namespace Options

/-- All paths among options can be encoded. -/
def IsEncodable (options : Options) : Prop :=
  (∀ paths ∈ options.subconfigs, ∀ path ∈ paths, Text.isScalar path.toText = true) ∧
    ∀ path ∈ options.setOutput, Text.isScalar path.toText = true

variable {options : Options}

theorem isPlain_pathsNode
    (paths : List AbsolutePath) :
    (pathsNode paths).isPlain = true := by
  rw [pathsNode, Json.Node.isPlain]
  induction paths with
  | nil =>
      rfl
  | cons path paths inductionHypothesis =>
      exact inductionHypothesis

theorem depth_pathsNode
    (paths : List AbsolutePath) :
    (pathsNode paths).depth = 1 := by
  rw [pathsNode, Json.Node.depth, Nat.add_eq_right]
  induction paths with
  | nil =>
      rfl
  | cons path paths inductionHypothesis =>
      rw [List.map_cons, Json.Node.depthAll, inductionHypothesis]
      rfl

theorem texts_pathsNode
    (paths : List AbsolutePath) :
    (pathsNode paths).texts = paths.map (·.toText) := by
  rw [pathsNode, Json.Node.texts]
  induction paths with
  | nil =>
      rfl
  | cons path paths inductionHypothesis =>
      exact congrArg (path.toText :: ·) inductionHypothesis

theorem isPlain_generatorNode
    (generator : GeneratorOptions) :
    (generatorNode generator).isPlain = true := by
  rcases generator with ⟨_ | path, _ | suffix⟩ <;> rfl

theorem depth_generatorNode
    (generator : GeneratorOptions) :
    (generatorNode generator).depth = 1 := by
  rcases generator with ⟨_ | path, _ | suffix⟩ <;> rfl

/-- The document of options has no name twice. -/
theorem isPlain_toNode
    (options : Options) :
    options.toNode.isPlain = true := by
  rcases options with ⟨_ | paths, _ | generator⟩ <;>
    simp [toNode, Json.Node.isPlain, Json.Node.membersPlain, isPlain_pathsNode,
      isPlain_generatorNode]
  decide

theorem depth_toNode
    (options : Options) :
    options.toNode.depth ≤ 2 := by
  rcases options with ⟨_ | paths, _ | generator⟩ <;>
    simp [toNode, Json.Node.depth, Json.Node.depthMembers, depth_pathsNode,
      depth_generatorNode]

/-- A suffix that may be set can be encoded. -/
theorem isScalar_of_isSuffix
    {suffix : Text}
    (isAllowed : isSuffix suffix = true) :
    Text.isScalar suffix = true := by
  have ofWord : ∀ word : Text, word.all CodePoint.isAsciiWord = true →
      Text.isScalar word = true := fun word areWord =>
    List.all_eq_true.mpr fun c isMember =>
      ScalarType.isScalar_of_isAsciiWord (List.all_eq_true.mp areWord c isMember)
  rw [isSuffix, Bool.and_eq_true] at isAllowed
  cases isBroken : Text.dropEnd? suffix "\n" with
  | none =>
      rw [isBroken] at isAllowed
      exact ofWord suffix isAllowed.2
  | some word =>
      rw [isBroken] at isAllowed
      rw [Text.eq_append_of_dropEnd? isBroken, Text.isScalar_append, ofWord word isAllowed.2]
      decide

/-- The document of options can be encoded if the paths in it can. -/
theorem all_isScalar_texts_toNode
    (areAllowed : ∀ suffix ∈ options.setSuffix, isSuffix suffix = true) :
    options.toNode.texts.all Text.isScalar = true ↔ options.IsEncodable := by
  have ofPaths : ∀ paths : List AbsolutePath,
      (pathsNode paths).texts.all Text.isScalar = true ↔
        ∀ path ∈ paths, Text.isScalar path.toText = true := by
    intro paths
    rw [texts_pathsNode, List.all_map, List.all_eq_true]
    rfl
  have areNames : Text.isScalar "subconfigs" = true ∧ Text.isScalar "generator" = true ∧
      Text.isScalar "output" = true ∧ Text.isScalar "local_suffix" = true := by
    decide
  have areScalar : ∀ suffix ∈ options.setSuffix, Text.isScalar suffix = true :=
    fun suffix isSet => isScalar_of_isSuffix (areAllowed suffix isSet)
  rcases options with ⟨_ | paths, _ | ⟨_ | path, _ | suffix⟩⟩
  all_goals
    simp_all [toNode, Json.Node.texts, Json.Node.textsOfMembers, IsEncodable, setOutput,
      setSuffix, generatorNode, pathNode]

/-- What a document of options says is what the options are. -/
theorem read_compact_toNode
    (options : Options) :
    Json.read (options.toNode.compact false) = .ok options.toNode.toValue :=
  Json.read_compact (isPlain_toNode options)
    (Nat.le_trans (depth_toNode options) (by decide))

end Options

/-!
## Configurations after steps that succeed
-/

namespace Session

/-- What a session accepted is what it stores, or it has nothing but defaults. -/
structure IsCurrent (isGiven : Bool) (session : Session) : Prop where
  settled : session.IsSettled
  agreed : isGiven = true → session.IsAgreed
  untouched :
    isGiven = false →
      session.accepted = .complete session.project .none ∧
        session.toOptions = .defaults session.project

variable {isGiven : Bool} {session : Session}

/-- Every step that succeeds leaves a session current. -/
theorem IsCurrent.after
    (current : IsCurrent isGiven session)
    {step : Step}
    (proper : step.IsProper)
    (succeeds : session.Succeeds step) :
    IsCurrent (isGiven || step.takesOptions) (session.after step) := by
  cases step with
  | load files t =>
      rcases outcome : session.load files t with ⟨after, _ | failure, logs⟩
      · obtain ⟨settled, agreed⟩ := current.settled.load outcome
        rw [Session.after, outcome]
        exact ⟨settled, fun _ => agreed, by simp [Step.takesOptions]⟩
      · rw [Succeeds, outcome] at succeeds
        cases succeeds
  | loadConfigs files =>
      rcases outcome : session.loadConfigs files with ⟨after, _ | failure, logs⟩
      · obtain ⟨settled, agreed⟩ := current.settled.loadConfigs outcome
        rw [Session.after, outcome]
        exact ⟨settled, fun _ => agreed, by simp [Step.takesOptions]⟩
      · rw [Succeeds, outcome] at succeeds
        cases succeeds
  | update setting removed =>
      rcases outcome : session.update setting removed with ⟨after, failure | changes⟩
      · rw [Succeeds, outcome] at succeeds
        cases succeeds
      · obtain ⟨settled, agreed⟩ := current.settled.update outcome
        rw [Session.after, outcome]
        exact ⟨settled, fun _ => agreed, by simp [Step.takesOptions]⟩
  | move directory =>
      rw [Step.takesOptions, Bool.or_false]
      exact ⟨current.settled.move proper, current.agreed, current.untouched⟩

theorem Arrives.isCurrent
    (arrives : Arrives isGiven session) :
    IsCurrent isGiven session := by
  obtain ⟨start, localPath, project, properStart, reached⟩ := arrives
  induction reached with
  | make isMade =>
      obtain ⟨settled, untouched⟩ := IsSettled.of_make properStart isMade
      exact ⟨settled, nofun, fun _ => untouched⟩
  | ofSetting _ isMade =>
      obtain ⟨settled, agreed⟩ := IsSettled.of_ofSetting properStart isMade
      exact ⟨settled, fun _ => agreed, nofun⟩
  | step _ isAdmitted current =>
      exact current.after isAdmitted.1 isAdmitted.2

/-- What a session accepted reads back, if its paths can be encoded. -/
theorem IsAgreed.text_eq
    (agreed : session.IsAgreed)
    (settled : session.IsSettled) :
    (session.toOptions.IsEncodable →
      ∃ t, session.text = .ok t ∧ Json.read t = .ok session.toOptions.toNode.toValue) ∧
    (¬ session.toOptions.IsEncodable → session.text = .error .unencodable) := by
  have isGiven : session.accepted.given = session.toOptions :=
    congrArg AcceptedOptions.given agreed
  have isEncodable : Text.isScalar (session.toOptions.toNode.compact false) = true ↔
      session.toOptions.IsEncodable := by
    rw [Json.Node.isScalar_compact]
    exact Options.all_isScalar_texts_toNode settled.options.localSuffix
  rw [text, isGiven]
  constructor
  · intro encodable
    rw [if_pos (isEncodable.mpr encodable)]
    exact ⟨_, rfl, session.toOptions.read_compact_toNode⟩
  · intro notEncodable
    rw [if_neg fun isScalar => notEncodable (isEncodable.mp isScalar)]

/-- In whatever order options are loaded and updated, the options of the generator are those
that are handed out with the defaults of the project, and from the first time that options
were taken the document reads as what is handed out. -/
theorem views_agree
    (arrives : Arrives isGiven session) :
    (session.accepted.output = session.toOptions.output session.project ∧
      session.accepted.localSuffix = session.toOptions.localSuffix) ∧
    (isGiven = true →
      (session.toOptions.IsEncodable →
        ∃ t, session.text = .ok t ∧ Json.read t = .ok session.toOptions.toNode.toValue) ∧
      (¬ session.toOptions.IsEncodable → session.text = .error .unencodable)) := by
  obtain ⟨settled, agreed, untouched⟩ := arrives.isCurrent
  refine ⟨?_, fun areTaken => (agreed areTaken).text_eq settled⟩
  cases isGiven with
  | true =>
      rw [agreed rfl]
      exact ⟨rfl, rfl⟩
  | false =>
      obtain ⟨isAccepted, areDefaults⟩ := untouched rfl
      rw [isAccepted, areDefaults]
      exact ⟨rfl, rfl⟩

/-- Options of two files read from the document as they are handed out. -/
theorem views_agree_overriding :
    ∃ after logs,
      opened.load Config.overriding.files "a.toml" = (after, none, logs) ∧
        Arrives true after ∧
          after.toOptions =
              ⟨some [⟨["b", "b.toml"]⟩], some ⟨some ⟨["b", "b.py"]⟩, some "_a"⟩⟩ ∧
            after.accepted.output = after.toOptions.output after.project ∧
              ∃ t, after.text = .ok t ∧ Json.read t = .ok after.toOptions.toNode.toValue := by
  have isNone : (opened.load Config.overriding.files "a.toml").2.1.isNone = true := by
    decide +kernel
  have isStored : (opened.load Config.overriding.files "a.toml").1.toOptions =
      ⟨some [⟨["b", "b.toml"]⟩], some ⟨some ⟨["b", "b.py"]⟩, some "_a"⟩⟩ := by
    decide +kernel
  cases succeeds : opened.load Config.overriding.files "a.toml" with
  | mk after outcome =>
      rw [succeeds] at isNone isStored
      obtain ⟨_ | failure, logs⟩ := outcome
      · have isSuccess : opened.Succeeds (.load Config.overriding.files "a.toml") := by
          rw [Succeeds, succeeds]
        have arrives := opened_arrives.step (by trivial) isSuccess
        rw [Session.after, succeeds] at arrives
        have encodable : after.toOptions.IsEncodable := by
          rw [isStored]
          refine ⟨fun paths isSet path isPath => ?_, fun path isSet => ?_⟩
          · cases isSet
            rw [List.mem_singleton.mp isPath]
            decide
          · cases isSet
            decide
        obtain ⟨⟨sameOutput, -⟩, ofGiven⟩ := views_agree arrives
        exact ⟨after, logs, rfl, arrives, isStored, sameOutput, (ofGiven rfl).1 encodable⟩
      · cases isNone

/-- A setting with a lone surrogate in a path. -/
def strayOutput : Setting :=
  .table [("generator", .table [("output", .text [0xDC80])])]

/-- The document of a new configuration is empty, though its defaults are handed out.  A
configuration with a lone surrogate in a path has no document. -/
theorem text_opened_ne :
    (Arrives false opened ∧
      opened.text = .ok "\x7b\x7d" ∧
        Json.read "\x7b\x7d" ≠ .ok opened.toOptions.toNode.toValue) ∧
    ∃ session, Arrives true session ∧ session.text = .error .unencodable := by
  have proper : misspelled.directory.IsProper := by
    decide
  have isRead : Json.read "\x7b\x7d" = .ok (.dict []) := by
    rfl
  have differs : Json.read "\x7b\x7d" ≠ .ok opened.toOptions.toNode.toValue := by
    rw [isRead]
    intro same
    cases Value.dict.inj (Except.ok.inj same)
  refine ⟨⟨opened_arrives, rfl, differs⟩, ?_⟩
  have isStored : (ofSetting misspelled strayOutput none).toOption.map toOptions =
      some ⟨none, some ⟨some ⟨[[0xDC80]]⟩, none⟩⟩ := by
    rw [ofSetting, make_misspelled]
    decide +kernel
  cases succeeds : ofSetting misspelled strayOutput none with
  | error failure =>
      rw [succeeds] at isStored
      cases isStored
  | ok session =>
      rw [succeeds] at isStored
      have sameOptions := Option.some.inj isStored
      obtain ⟨settled, agreed⟩ := IsSettled.of_ofSetting proper succeeds
      refine ⟨session, ⟨misspelled, none, none, proper, .ofSetting rfl succeeds⟩,
        (agreed.text_eq settled).2 ?_⟩
      rw [sameOptions]
      intro encodable
      exact absurd (encodable.2 _ rfl) (by decide)

end Session

end ContractBindings
