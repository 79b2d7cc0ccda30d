import ContractBindings.Proofs.LeastNames
import ContractBindings.Proofs.MethodDocumentation
import ContractBindings.Proofs.OptionsReadBack
import ContractBindings.Proofs.PreambleNames

namespace ContractBindings

/-!
# Names that are identifiers

The identifiers of contracts may hold dollar signs, which become underscores.  What is left are
letters, digits and underscores of ASCII, and these make an identifier unless a digit comes
first.

Main statements: every parameter gets a name, which is an identifier unless an underscore was
taken away from in front of a digit; every name of a method is an identifier, and it is one with
an accepted suffix behind it unless the suffix ends with a line break.
-/

namespace CodePoint

theorem lt_of_isAsciiWord
    {c : CodePoint}
    (isWord : c.isAsciiWord = true) :
    c.val < 0x80 := by
  simp only [isAsciiWord, isAsciiLetter, isAsciiDigit, Bool.or_eq_true, Bool.and_eq_true,
    decide_eq_true_eq] at isWord
  rcases isWord with (letter | digit) | rfl
  · omega
  · omega
  · decide

/-- Letters, digits and underscores of ASCII stand in identifiers, and all but digits begin
them. -/
theorem continuesIdentifier_of_isAsciiWord
    {c : CodePoint}
    (isWord : c.isAsciiWord = true) :
    c.continuesIdentifier = true ∧ (c.beginsIdentifier = true ↔ c.isAsciiDigit = false) := by
  have isAscii := lt_of_isAsciiWord isWord
  refine ⟨by rw [continuesIdentifier, if_pos isAscii, isWord], ?_⟩
  rw [beginsIdentifier, if_pos isAscii]
  cases isDigit : c.isAsciiDigit with
  | false =>
      rw [isAsciiWord, isDigit, Bool.or_false] at isWord
      exact iff_of_true isWord rfl
  | true =>
      -- A digit is neither a letter nor the underscore.
      refine iff_of_false (fun begins => ?_) (by decide)
      simp only [isAsciiDigit, Bool.and_eq_true, decide_eq_true_eq] at isDigit
      simp only [isAsciiLetter, Bool.or_eq_true, Bool.and_eq_true, decide_eq_true_eq] at begins
      rcases begins with letter | rfl
      · omega
      · exact absurd isDigit (by decide)

end CodePoint

namespace Text

/-- Letters, digits and underscores of ASCII are an identifier if the first is no digit. -/
theorem isIdentifier_cons_iff
    {first : CodePoint}
    {rest : Text}
    (areWord : ∀ c ∈ first :: rest, c.isAsciiWord = true) :
    isIdentifier (first :: rest) = true ↔ first.isAsciiDigit = false := by
  rw [← (CodePoint.continuesIdentifier_of_isAsciiWord (areWord first List.mem_cons_self)).2,
    isIdentifier, Bool.and_eq_true, List.all_eq_true]
  refine and_iff_left fun c member => ?_
  exact (CodePoint.continuesIdentifier_of_isAsciiWord
    (areWord c (List.mem_cons_of_mem first member))).1

end Text

namespace Names

/-!
## Names that a search finds
-/

/-- What an identifier of contracts is made of. -/
def isSolidityPart (c : CodePoint) : Bool :=
  isSolidityLetter c || c.isAsciiDigit

theorem isSolidityPart_of_mem
    {name : Text}
    (isName : isSolidityIdentifier name = true) :
    ∀ c ∈ name, isSolidityPart c = true := by
  cases name with
  | nil =>
      exact List.forall_mem_nil _
  | cons first others =>
      rw [isSolidityIdentifier, Bool.and_eq_true, List.all_eq_true] at isName
      exact List.forall_mem_cons.mpr ⟨by rw [isSolidityPart, isName.1]; rfl, isName.2⟩

/-- Without its dollar sign a part of an identifier is a letter, a digit or the underscore, and
a digit only if it was one. -/
theorem isAsciiWord_of_isSolidityPart
    {c : CodePoint}
    (isPart : isSolidityPart c = true) :
    (if c = '$' then CodePoint.ofChar '_' else c).isAsciiWord = true ∧
      (if c = '$' then CodePoint.ofChar '_' else c).isAsciiDigit = c.isAsciiDigit := by
  by_cases isDollar : c = '$'
  · subst isDollar
    exact ⟨rfl, rfl⟩
  · rw [if_neg isDollar]
    refine ⟨?_, rfl⟩
    simp only [isSolidityPart, isSolidityLetter, isDollar, decide_false, Bool.or_false] at isPart
    rwa [CodePoint.isAsciiWord, Bool.or_right_comm]

/-- A name that is found for one of parts of identifiers is an identifier if no digit comes
first. -/
theorem isIdentifier_of_free?
    {clashes : Text → Bool}
    {taken : List Text}
    {first : CodePoint}
    {rest own : Text}
    (areParts : ∀ c ∈ first :: rest, isSolidityPart c = true)
    (found : free? clashes taken (first :: rest) = some own) :
    (∀ c ∈ own, c.isAsciiWord = true) ∧
      ∃ begins others, own = begins :: others ∧ begins.isAsciiDigit = first.isAsciiDigit := by
  rw [free?, appendUnderscores_eq_some_iff] at found
  obtain ⟨count, -, rfl, -, -⟩ := found
  refine ⟨fun c member => ?_, _, _, rfl,
    (isAsciiWord_of_isSolidityPart (areParts first List.mem_cons_self)).2⟩
  rcases List.mem_append.mp member with isReplaced | isAppended
  · obtain ⟨part, isPart, rfl⟩ := List.mem_map.mp isReplaced
    exact (isAsciiWord_of_isSolidityPart (areParts part isPart)).1
  · rw [List.eq_of_mem_replicate isAppended]
    rfl

/-!
## Parameters
-/

/-- A name that is neither reserved nor taken, no parameter of all methods and no word of the
language. -/
structure IsFreeParameter (taken : List Text) (name : Text) : Prop where
  notReserved : name ∉ moduleNames
  notShared : name ∉ methodParameters
  notTaken : name ∉ taken
  notKeyword : name ∉ keywords

theorem clashesAsParameter_eq_false_iff
    {taken : List Text}
    {name : Text} :
    clashesAsParameter taken name = false ↔ IsFreeParameter taken name := by
  simp only [clashesAsParameter, Bool.or_eq_false_iff, List.contains_eq_mem,
    decide_eq_false_iff_not]
  constructor
  · rintro ⟨⟨⟨reserved, shared⟩, isTaken⟩, keyword⟩
    exact ⟨reserved, shared, isTaken, keyword⟩
  · rintro ⟨reserved, shared, isTaken, keyword⟩
    exact ⟨⟨⟨reserved, shared⟩, isTaken⟩, keyword⟩

/-- A name that is longer than those that are taken is free. -/
theorem isFreeParameter_of_long
    {taken : List Text}
    {name : Text}
    (long : bound taken ≤ name.length + 1) :
    IsFreeParameter taken name := by
  have atLeast : 32 ≤ bound taken :=
    Nat.le_add_left 32 _
  have areShort : ∀ shared ∈ methodParameters, shared.length < 20 := by
    decide
  obtain ⟨notReserved, notTaken⟩ := notMem_of_long long
  simp only [List.mem_append, not_or] at notReserved
  obtain ⟨⟨notModule, -⟩, notKeyword⟩ := notReserved
  refine ⟨notModule, fun isShared => ?_, notTaken, notKeyword⟩
  have short := areShort name isShared
  omega

/-- A free name is found for every parameter. -/
theorem exists_free?_parameter
    (taken : List Text)
    (stem : Text) :
    ∃ own, free? (clashesAsParameter taken) taken stem = some own ∧ IsFreeParameter taken own := by
  cases found : free? (clashesAsParameter taken) taken stem with
  | some own =>
      exact ⟨own, rfl, clashesAsParameter_eq_false_iff.mp (clashes_appendUnderscores found)⟩
  | none =>
      have atLeast : 32 ≤ bound taken :=
        Nat.le_add_left 32 _
      have clash := appendUnderscores_eq_none_iff.mp found (bound taken - 1) (by omega)
      -- The longest name that is tried is longer than all that are taken.
      have long :
          bound taken ≤
            (Text.replace stem '$' '_' ++ underscores (bound taken - 1)).length + 1 := by
        rw [List.length_append, underscores, List.length_replicate]
        omega
      rw [clashesAsParameter_eq_false_iff.mpr (isFreeParameter_of_long long)] at clash
      cases clash

/-- All parameters get names, each of them one that is found for its stem. -/
theorem exists_parameterNamesFrom?
    {related : Text → Text → Prop}
    {names : List Text}
    (each :
      ∀ name ∈ names, ∀ place taken own,
        free? (clashesAsParameter taken) taken (parameterStem place name) = some own →
          IsFreeParameter taken own → related name own)
    (place : Nat)
    (taken : List Text) :
    ∃ own, parameterNamesFrom? place taken names = some own ∧ List.Forall₂ related names own := by
  induction names generalizing place taken with
  | nil =>
      exact ⟨[], rfl, .nil⟩
  | cons name names inductionHypothesis =>
      rw [List.forall_mem_cons] at each
      obtain ⟨first, ofFirst, isFree⟩ := exists_free?_parameter taken (parameterStem place name)
      obtain ⟨others, ofOthers, related⟩ :=
        inductionHypothesis each.2 (place + 1) (taken ++ [first])
      refine ⟨first :: others, ?_, .cons (each.1 place taken first ofFirst isFree) related⟩
      rw [parameterNamesFrom?, ofFirst, Option.bind_eq_bind, Option.bind_some, ofOthers]
      rfl

/-- A name in which an underscore stands in front of a digit. -/
def HidesDigit (name : Text) : Prop :=
  ∃ digit rest, name = CodePoint.ofChar '_' :: digit :: rest ∧ digit.isAsciiDigit = true

theorem isAsciiDigit_of_isSolidityLetter
    {c : CodePoint}
    (isLetter : isSolidityLetter c = true) :
    c.isAsciiDigit = false := by
  simp only [isSolidityLetter, CodePoint.isAsciiLetter, Bool.or_eq_true, Bool.and_eq_true,
    decide_eq_true_eq] at isLetter
  rcases isLetter with (isLetter | rfl) | rfl
  · simp only [CodePoint.isAsciiDigit, Bool.and_eq_false_iff, decide_eq_false_iff_not]
    omega
  · rfl
  · rfl

/-- A parameter without a name is called by its place. -/
theorem isSolidityPart_of_mem_argument
    (place : Nat) :
    ∀ c ∈ Text.ofString "arg" ++ Text.ofNat place, isSolidityPart c = true := by
  intro c member
  have areLetters : (Text.ofString "arg").all isSolidityPart = true := by
    decide
  rcases List.mem_append.mp member with isLetter | isDigit
  · exact List.all_eq_true.mp areLetters c isLetter
  · rw [isSolidityPart, (Text.isDigit_of_mem_ofNat isDigit).1, Bool.or_true]

/-- What the name of a parameter is made from is not empty, and a digit comes first only if it
stood behind an underscore. -/
theorem parameterStem_cases
    (place : Nat)
    {name : Text}
    (isName : name = [] ∨ isSolidityIdentifier name = true) :
    ∃ first rest,
      parameterStem place name = first :: rest ∧
        (∀ c ∈ first :: rest, isSolidityPart c = true) ∧
          (first.isAsciiDigit = true ↔ HidesDigit name) := by
  rcases isName with rfl | isIdentifier
  · refine ⟨_, _, rfl, isSolidityPart_of_mem_argument place, iff_of_false (by decide) ?_⟩
    rintro ⟨_, _, isEmpty, -⟩
    cases isEmpty
  · have areParts := isSolidityPart_of_mem isIdentifier
    cases name with
    | nil =>
        cases isIdentifier
    | cons first others =>
        rw [isSolidityIdentifier, Bool.and_eq_true] at isIdentifier
        by_cases isUnderscore : first = '_'
        · subst isUnderscore
          have dropped : Text.dropStart? (CodePoint.ofChar '_' :: others) "_" = some others :=
            Text.dropStart?_append "_" others
          cases others with
          | nil =>
              refine ⟨_, _, rfl, isSolidityPart_of_mem_argument place,
                iff_of_false (by decide) ?_⟩
              rintro ⟨_, _, isShort, -⟩
              cases isShort
          | cons second more =>
              refine ⟨second, more, by rw [parameterStem, dropped]; rfl,
                (List.forall_mem_cons.mp areParts).2, ?_⟩
              constructor
              · exact fun isDigit => ⟨second, more, rfl, isDigit⟩
              · rintro ⟨_, _, same, isDigit⟩
                cases same
                exact isDigit
        · have kept : Text.dropStart? (first :: others) "_" = none :=
            Text.dropStart?_cons_ne isUnderscore others []
          refine ⟨first, others, by rw [parameterStem, kept]; rfl, areParts, ?_⟩
          rw [isAsciiDigit_of_isSolidityLetter isIdentifier.1]
          refine iff_of_false Bool.false_ne_true ?_
          rintro ⟨_, _, same, -⟩
          exact isUnderscore (List.cons.inj same).1

/-- Every parameter gets a name, which is no word of the language.  It is an identifier unless
the name in the interface has an underscore in front of a digit. -/
theorem isIdentifier_parameterNames?
    {names : List Text}
    (areNames : ∀ name ∈ names, name = [] ∨ isSolidityIdentifier name = true) :
    ∃ own,
      parameterNames? names = some own ∧
        List.Forall₂
          (fun name given =>
            given ∉ keywords ∧ (Text.isIdentifier given = true ↔ ¬ HidesDigit name))
          names own := by
  refine exists_parameterNamesFrom? (fun name member place taken own found isFree => ?_) 0 []
  obtain ⟨first, rest, isStem, areParts, digitFirst⟩ :=
    parameterStem_cases place (areNames name member)
  rw [isStem] at found
  obtain ⟨areWord, begins, others, rfl, sameStart⟩ := isIdentifier_of_free? areParts found
  refine ⟨isFree.notKeyword, ?_⟩
  rw [Text.isIdentifier_cons_iff areWord, sameStart, ← digitFirst, Bool.not_eq_true]

/-- Names of all kinds, one of them with an underscore in front of a digit. -/
def mixedNames : List Text :=
  ["to", "", "_amount", "__x", "$a", "_1", "from", "_", "_$2", "_from"]

theorem isIdentifier_parameterNames?_mixed :
    (∀ name ∈ mixedNames, name = [] ∨ isSolidityIdentifier name = true) ∧
      ∃ own,
        parameterNames? mixedNames = some own ∧
          List.Forall₂
            (fun name given =>
              given ∉ keywords ∧ (Text.isIdentifier given = true ↔ ¬ HidesDigit name))
            mixedNames own := by
  have areNames : ∀ name ∈ mixedNames, name = [] ∨ isSolidityIdentifier name = true := by
    decide
  exact ⟨areNames, isIdentifier_parameterNames? areNames⟩

/-- A parameter is called by a number. -/
theorem not_isIdentifier_parameterNames? :
    isSolidityIdentifier "_1" = true ∧ parameterNames? ["_1"] = some [Text.ofString "1"] ∧
      Text.isIdentifier "1" = false := by
  decide +kernel

end Names

/-!
## Methods
-/

namespace Options

/-- An accepted suffix is a word, and a line break may stand behind it. -/
theorem exists_word_of_isSuffix
    {suffix : Text}
    (isAllowed : isSuffix suffix = true) :
    ∃ word ending, Text.IsEnding ending ∧ suffix = word ++ ending ∧ word ≠ [] ∧
      ∀ c ∈ word, c.isAsciiWord = true := by
  rw [isSuffix, Bool.and_eq_true, decide_eq_true_eq, List.all_eq_true] at isAllowed
  obtain ⟨ending, isEnding, whole⟩ := Text.dropLineBreak_append suffix
  exact ⟨Text.dropLineBreak suffix, ending, isEnding, whole, isAllowed.1, isAllowed.2⟩

/-- The suffix in use is one that may be set. -/
theorem isSuffix_of_readGenerator
    {directory : AbsolutePath}
    {setting : Setting}
    {generator : GeneratorOptions}
    (accepted : readGenerator directory setting = .accepted generator) :
    isSuffix (generator.localSuffix.getD defaultSuffix) = true := by
  cases isSet : generator.localSuffix with
  | none =>
      rfl
  | some suffix =>
      exact (isProper_isSuffix_of_readGenerator accepted).2 suffix isSet

end Options

namespace Names

/-- The name of a method for an identifier is an identifier. -/
theorem isIdentifier_of_methodName?
    {suffix name base : Text}
    {taken : List Text}
    (isName : isSolidityIdentifier name = true)
    (found : methodName? suffix taken name = some base) :
    Text.isIdentifier base = true ∧ ∀ c ∈ base, c.isAsciiWord = true := by
  have areParts := isSolidityPart_of_mem isName
  cases name with
  | nil =>
      cases isName
  | cons first others =>
      rw [isSolidityIdentifier, Bool.and_eq_true] at isName
      obtain ⟨areWord, begins, rest, rfl, sameStart⟩ := isIdentifier_of_free? areParts found
      refine ⟨(Text.isIdentifier_cons_iff areWord).mpr ?_, areWord⟩
      rw [sameStart, isAsciiDigit_of_isSolidityLetter isName.1]

/-- The name of a method is an identifier and no word of the language.  With an accepted suffix
behind it, it is no word of the language either, and it is an identifier unless the suffix ends
with a line break. -/
theorem isIdentifier_append_of_methodName?
    {directory : AbsolutePath}
    {setting : Setting}
    {generator : GeneratorOptions}
    (accepted : Options.readGenerator directory setting = .accepted generator)
    {suffix : Text}
    (inUse : generator.localSuffix.getD Options.defaultSuffix = suffix)
    {name base : Text}
    {taken : List Text}
    (isName : isSolidityIdentifier name = true)
    (found : methodName? suffix taken name = some base) :
    (Text.isIdentifier base = true ∧ base ∉ keywords) ∧ base ++ suffix ∉ keywords ∧
      (Text.isIdentifier (base ++ suffix) = true ↔ ¬ Text.ofString "\n" <:+ suffix) := by
  obtain ⟨isIdentifier, areWord⟩ := isIdentifier_of_methodName? isName found
  obtain ⟨-, -, isBase, -⟩ := methodName?_eq_some_iff.mp found
  refine ⟨⟨isIdentifier, isBase.alone.notKeyword⟩, isBase.suffixed.notKeyword, ?_⟩
  have isAllowed : Options.isSuffix suffix = true :=
    inUse ▸ Options.isSuffix_of_readGenerator accepted
  obtain ⟨word, ending, isEnding, rfl, notEmpty, areSuffix⟩ :=
    Options.exists_word_of_isSuffix isAllowed
  rcases isEnding with rfl | rfl
  · rw [List.append_nil]
    refine iff_of_true (Text.isIdentifier_append isIdentifier fun c member =>
      (CodePoint.continuesIdentifier_of_isAsciiWord (areSuffix c member)).1) fun broken => ?_
    exact absurd (areSuffix _ (broken.subset List.mem_cons_self)) (by decide)
  · refine iff_of_false (fun isIdentifier => ?_) (not_not.mpr (List.suffix_append _ _))
    obtain ⟨_, _, -, -, continues⟩ := Text.isIdentifier_iff.mp isIdentifier
    refine absurd (continues '\n' ?_) (by decide)
    exact List.mem_append_right _ (List.mem_append_right _ List.mem_cons_self)

/-- The options that set a suffix. -/
def suffixSetting (suffix : Text) : Setting :=
  .table [("local_suffix", .text suffix)]

/-- A function whose name is taken, and whose suffixed name would be a member of contracts. -/
theorem isIdentifier_append_of_methodName?_local :
    Options.readGenerator ⟨[]⟩ (suffixSetting "_call") = .accepted ⟨none, some "_call"⟩ ∧
      isSolidityIdentifier "$local" = true ∧
        methodName? "_call" ["_local_"] "$local" = some "_local__" ∧
          (Text.isIdentifier "_local__" = true ∧ Text.ofString "_local__" ∉ keywords) ∧
            Text.ofString "_local__" ++ "_call" ∉ keywords ∧
              (Text.isIdentifier ("_local__" ++ "_call") = true ↔
                ¬ Text.ofString "\n" <:+ "_call") := by
  have accepted :
      Options.readGenerator ⟨[]⟩ (suffixSetting "_call") = .accepted ⟨none, some "_call"⟩ := by
    rfl
  have isName : isSolidityIdentifier "$local" = true := by
    decide
  have found : methodName? "_call" ["_local_"] "$local" = some "_local__" := by
    decide +kernel
  exact ⟨accepted, isName, found, isIdentifier_append_of_methodName? accepted rfl isName found⟩

/-- A suffix with a line break at its end is accepted, and no method can be called so. -/
theorem not_isIdentifier_append_lineBreak :
    Options.readGenerator ⟨[]⟩ (suffixSetting "_\n") = .accepted ⟨none, some "_\n"⟩ ∧
      isSolidityIdentifier "f" = true ∧ methodName? "_\n" [] "f" = some "f" ∧
        Text.isIdentifier ("f" ++ "_\n") = false :=
  ⟨rfl, by decide, by decide +kernel, by decide⟩

end Names

end ContractBindings
