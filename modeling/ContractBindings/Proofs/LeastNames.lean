import ContractBindings.Config.Options
import ContractBindings.Proofs.MethodNames
import ContractBindings.Proofs.Texts

namespace ContractBindings

/-!
# The least change of a name

A function gets its name with the least number of underscores behind it for which the name is
available alone and in front of the suffix.  The search is bounded by the lengths of the names
that are taken.

Main statement: the bound loses nothing.  No name is found only if none is there, which is so
exactly if the suffix ends as a dunder name does and the name begins like one, so that more
underscores between the two do not help, and no shorter name is available either.
-/

namespace Names

/-- A number of underscores. -/
def underscores (count : Nat) : Text :=
  List.replicate count '_'

theorem underscores_append
    (count length : Nat) :
    underscores count ++ underscores length = underscores (count + length) :=
  List.replicate_append_replicate

theorem append_underscores_zero
    (name : Text) :
    name ++ underscores 0 = name :=
  List.append_nil name

theorem append_underscores_succ
    (name : Text)
    (count : Nat) :
    name ++ underscores (count + 1) = name ++ "_" ++ underscores count :=
  (List.append_assoc name "_" (underscores count)).symm

/-- A name with underscores behind it ends with as many of them. -/
theorem suffix_append_underscores
    {count length : Nat}
    (enough : count ≤ length)
    (name : Text) :
    underscores count <:+ name ++ underscores length := by
  obtain ⟨more, rfl⟩ := Nat.exists_eq_add_of_le' enough
  refine ⟨name ++ underscores more, ?_⟩
  rw [List.append_assoc, underscores_append]

/-- What is found is the first name without a clash. -/
theorem appendUnderscores_eq_some_iff
    {clashes : Text → Bool}
    {bound : Nat}
    {name found : Text} :
    appendUnderscores clashes bound name = some found ↔
      ∃ count < bound, found = name ++ underscores count ∧ clashes found = false ∧
        ∀ fewer < count, clashes (name ++ underscores fewer) = true := by
  induction bound generalizing name with
  | zero =>
      simp [appendUnderscores]
  | succ bound inductionHypothesis =>
      rw [appendUnderscores, Nat.exists_lt_succ_left]
      simp only [Nat.forall_lt_succ_left, append_underscores_succ, append_underscores_zero]
      by_cases clash : clashes name = true
      · rw [if_pos clash, inductionHypothesis]
        constructor
        · rintro ⟨count, inBound, isFound, free, before⟩
          exact Or.inr ⟨count, inBound, isFound, free, clash, before⟩
        · rintro (⟨rfl, free, -⟩ | ⟨count, inBound, isFound, free, -, before⟩)
          · rw [clash] at free
            cases free
          · exact ⟨count, inBound, isFound, free, before⟩
      · rw [if_neg clash]
        constructor
        · rintro ⟨⟩
          exact Or.inl ⟨rfl, eq_false_of_ne_true clash,
            fun fewer below => absurd below (Nat.not_lt_zero fewer)⟩
        · rintro (⟨rfl, -, -⟩ | ⟨count, -, -, -, isClash, -⟩)
          · rfl
          · exact absurd isClash clash

theorem appendUnderscores_eq_none_iff
    {clashes : Text → Bool}
    {bound : Nat}
    {name : Text} :
    appendUnderscores clashes bound name = none ↔
      ∀ count < bound, clashes (name ++ underscores count) = true := by
  induction bound generalizing name with
  | zero =>
      simp [appendUnderscores]
  | succ bound inductionHypothesis =>
      rw [appendUnderscores, Nat.forall_lt_succ_left, append_underscores_zero]
      simp only [append_underscores_succ]
      by_cases clash : clashes name = true
      · rw [if_pos clash, inductionHypothesis, and_iff_right clash]
      · simp [clash]

/-- Two underscores on either side, and no third one at the end. -/
structure IsDunder (name : Text) : Prop where
  opens : underscores 2 <+: name
  closes : underscores 2 <:+ name
  noThird : ¬ underscores 3 <:+ name

theorem isDunder_iff
    {name : Text} :
    isDunder name = true ↔ IsDunder name := by
  have two : Text.ofString "__" = underscores 2 := by
    rfl
  have three : Text.ofString "___" = underscores 3 := by
    rfl
  simp only [isDunder, Bool.and_eq_true, Bool.not_eq_true', ← Bool.not_eq_true, two, three,
    Text.startsWith_iff, Text.endsWith_iff]
  exact ⟨fun ⟨⟨opens, closes⟩, noThird⟩ => ⟨opens, closes, noThird⟩,
    fun ⟨opens, closes, noThird⟩ => ⟨⟨opens, closes⟩, noThird⟩⟩

/-- A name that is neither reserved nor taken, and neither a word of the language nor one of
its dunder names. -/
structure IsAvailable (taken : List Text) (name : Text) : Prop where
  notReserved : name ∉ moduleNames
  notMember : name ∉ contractMembers
  notTaken : name ∉ taken
  notKeyword : name ∉ keywords
  notDunder : ¬ IsDunder name

theorem clashesAsMethod_eq_false_iff
    {taken : List Text}
    {name : Text} :
    clashesAsMethod taken name = false ↔ IsAvailable taken name := by
  have dunder : isDunder name = false ↔ ¬ IsDunder name := by
    rw [← isDunder_iff, Bool.not_eq_true]
  simp only [clashesAsMethod, Bool.or_eq_false_iff, List.contains_eq_mem, decide_eq_false_iff_not,
    dunder]
  constructor
  · rintro ⟨⟨⟨⟨reserved, member⟩, isTaken⟩, keyword⟩, dunder⟩
    exact ⟨reserved, member, isTaken, keyword, dunder⟩
  · rintro ⟨reserved, member, isTaken, keyword, dunder⟩
    exact ⟨⟨⟨⟨reserved, member⟩, isTaken⟩, keyword⟩, dunder⟩

/-- The base of the names of a method is available alone and in front of the suffix. -/
structure IsBase (suffix : Text) (taken : List Text) (base : Text) : Prop where
  alone : IsAvailable taken base
  suffixed : IsAvailable taken (base ++ suffix)

theorem isBase_iff
    {suffix base : Text}
    {taken : List Text} :
    (clashesAsMethod taken base || clashesAsMethod taken (base ++ suffix)) = false ↔
      IsBase suffix taken base := by
  rw [Bool.or_eq_false_iff, clashesAsMethod_eq_false_iff, clashesAsMethod_eq_false_iff]
  exact ⟨fun ⟨alone, suffixed⟩ => ⟨alone, suffixed⟩, fun ⟨alone, suffixed⟩ => ⟨alone, suffixed⟩⟩

/-- The suffix makes a dunder name of whatever begins like one: something else stands in front
of the two underscores at its end. -/
structure MakesDunder (suffix : Text) : Prop where
  closes : underscores 2 <:+ suffix
  noThird : ¬ underscores 3 <:+ suffix
  notAlone : suffix ≠ underscores 2

/-- Of two underscores behind a name no more are seen than of many. -/
theorem opens_iff
    {count : Nat}
    (enough : 2 ≤ count)
    (name rest : Text) :
    underscores 2 <+: name ++ underscores count ++ rest ↔
      underscores 2 <+: name ++ underscores 2 := by
  have begins : name ++ underscores 2 <+: name ++ underscores count ++ rest := by
    obtain ⟨more, rfl⟩ := Nat.exists_eq_add_of_le enough
    refine ⟨underscores more ++ rest, ?_⟩
    rw [← underscores_append]
    simp only [List.append_assoc]
  constructor
  · intro opens
    refine List.prefix_of_prefix_length_le opens begins ?_
    rw [List.length_append]
    exact Nat.le_add_left _ _
  · exact fun opens => opens.trans begins

/-- What such a suffix is put behind is a dunder name if it begins like one. -/
theorem isDunder_append
    {start suffix : Text}
    (makesDunder : MakesDunder suffix)
    (opens : underscores 2 <+: start ++ suffix) :
    IsDunder (start ++ suffix) := by
  obtain ⟨closes, noThird, notAlone⟩ := makesDunder
  have longer : (underscores 3).length ≤ suffix.length := by
    have atLeast := closes.length_le
    have different : (underscores 2).length ≠ suffix.length :=
      fun same => notAlone (closes.eq_of_length same).symm
    simp only [underscores, List.length_replicate] at atLeast different ⊢
    omega
  refine ⟨opens, closes.trans (List.suffix_append start suffix), fun third => noThird ?_⟩
  exact List.suffix_of_suffix_length_le third (List.suffix_append start suffix) longer

/-- Behind three underscores a name is a dunder name only for the sake of its two ends. -/
theorem isDunder_append_iff
    {count : Nat}
    (enough : 3 ≤ count)
    (name suffix : Text) :
    IsDunder (name ++ underscores count ++ suffix) ↔
      MakesDunder suffix ∧ underscores 2 <+: name ++ underscores 2 := by
  constructor
  · rintro ⟨opens, closes, noThird⟩
    have notOnly : ∀ length, suffix ≠ underscores length := by
      rintro length rfl
      refine noThird ?_
      rw [List.append_assoc, underscores_append]
      exact suffix_append_underscores (by omega) name
    have inSuffix : underscores 2 <:+ suffix := by
      refine (List.suffix_or_suffix_of_suffix closes (List.suffix_append _ suffix)).resolve_right ?_
      intro isShort
      exact notOnly _ (List.eq_replicate_of_mem fun c member =>
        List.eq_of_mem_replicate (isShort.subset member))
    exact ⟨⟨inSuffix, fun third => noThird (third.trans (List.suffix_append _ suffix)),
      notOnly 2⟩, (opens_iff (by omega) name suffix).mp opens⟩
  · rintro ⟨makesDunder, opens⟩
    exact isDunder_append makesDunder ((opens_iff (by omega) name suffix).mpr opens)

/-- No reserved name is as long as this. -/
theorem length_lt_of_reserved :
    ∀ name ∈ moduleNames ++ contractMembers ++ keywords, name.length < 20 := by
  decide +kernel

theorem length_lt_bound
    {taken : List Text}
    {name : Text}
    (isTaken : name ∈ taken) :
    name.length + 32 ≤ bound taken := by
  have longest :
      ∀ (names : List Text) (start : Nat),
        start ≤ names.foldl (fun longest name => max longest name.length) start ∧
          ∀ name ∈ names,
            name.length ≤ names.foldl (fun longest name => max longest name.length) start := by
    intro names
    induction names with
    | nil =>
        exact fun start => ⟨Nat.le_refl start, nofun⟩
    | cons first others inductionHypothesis =>
        intro start
        obtain ⟨least, each⟩ := inductionHypothesis (max start first.length)
        rw [List.foldl_cons, List.forall_mem_cons]
        exact ⟨by omega, by omega, each⟩
  exact Nat.add_le_add_right ((longest taken 0).2 name isTaken) 32

/-- A name that is longer than those that are taken is none of them, and it is not reserved. -/
theorem notMem_of_long
    {taken : List Text}
    {name : Text}
    (long : bound taken ≤ name.length + 1) :
    name ∉ moduleNames ++ contractMembers ++ keywords ∧ name ∉ taken := by
  have atLeast : 32 ≤ bound taken :=
    Nat.le_add_left 32 _
  refine ⟨fun isReserved => ?_, fun isTaken => ?_⟩
  · have short := length_lt_of_reserved name isReserved
    omega
  · have short := length_lt_bound isTaken
    omega

/-- A name that is longer than those that are taken is available, if it is no dunder name. -/
theorem isAvailable_of_long
    {taken : List Text}
    {name : Text}
    (long : bound taken ≤ name.length + 1)
    (notDunder : ¬ IsDunder name) :
    IsAvailable taken name := by
  obtain ⟨notReserved, notTaken⟩ := notMem_of_long long
  simp only [List.mem_append, not_or] at notReserved
  obtain ⟨⟨notModule, notMember⟩, notKeyword⟩ := notReserved
  exact ⟨notModule, notMember, notTaken, notKeyword, notDunder⟩

/-- The longest name that is tried is a base, unless no longer one is either. -/
theorem isBase_of_long
    {suffix name : Text}
    {taken : List Text}
    (notEndless : ¬ (MakesDunder suffix ∧ underscores 2 <+: name ++ underscores 2)) :
    IsBase suffix taken (name ++ underscores (bound taken - 1)) := by
  have atLeast : 32 ≤ bound taken :=
    Nat.le_add_left 32 _
  have isLong : bound taken - 1 ≤ (name ++ underscores (bound taken - 1)).length := by
    rw [List.length_append, underscores, List.length_replicate]
    exact Nat.le_add_left _ _
  constructor
  · refine isAvailable_of_long (by omega) fun dunder => dunder.noThird ?_
    exact suffix_append_underscores (by omega) name
  · refine isAvailable_of_long ?_ ?_
    · rw [List.length_append]
      omega
    · rwa [isDunder_append_iff (by omega)]

/-- With such a suffix no name is a base that has two underscores or more behind it. -/
theorem not_isBase_of_endless
    {suffix name : Text}
    {taken : List Text}
    {count : Nat}
    (makesDunder : MakesDunder suffix)
    (opens : underscores 2 <+: name ++ underscores 2)
    (enough : 2 ≤ count) :
    ¬ IsBase suffix taken (name ++ underscores count) := by
  rintro ⟨-, suffixed⟩
  exact suffixed.notDunder (isDunder_append makesDunder ((opens_iff enough name suffix).mpr opens))

/-- Every name has a base, unless the suffix makes a dunder name of each of the longer ones. -/
theorem exists_isBase_iff
    {suffix name : Text}
    {taken : List Text} :
    (∃ count, IsBase suffix taken (name ++ underscores count)) ↔
      (MakesDunder suffix ∧ underscores 2 <+: name ++ underscores 2 →
        ∃ count < 2, IsBase suffix taken (name ++ underscores count)) := by
  constructor
  · rintro ⟨count, isBase⟩ ⟨makesDunder, opens⟩
    refine ⟨count, Nat.lt_of_not_le fun enough => ?_, isBase⟩
    exact not_isBase_of_endless makesDunder opens enough isBase
  · intro early
    by_cases isEndless : MakesDunder suffix ∧ underscores 2 <+: name ++ underscores 2
    · obtain ⟨count, -, isBase⟩ := early isEndless
      exact ⟨count, isBase⟩
    · exact ⟨bound taken - 1, isBase_of_long isEndless⟩

/-- The bound is large enough: where there is a base at all, one is found. -/
theorem exists_isBase_lt_bound
    {suffix name : Text}
    {taken : List Text}
    (existsBase : ∃ count, IsBase suffix taken (name ++ underscores count)) :
    ∃ count < bound taken, IsBase suffix taken (name ++ underscores count) := by
  have atLeast : 32 ≤ bound taken :=
    Nat.le_add_left 32 _
  by_cases isEndless : MakesDunder suffix ∧ underscores 2 <+: name ++ underscores 2
  · obtain ⟨count, early, isBase⟩ := exists_isBase_iff.mp existsBase isEndless
    exact ⟨count, by omega, isBase⟩
  · exact ⟨bound taken - 1, by omega, isBase_of_long isEndless⟩

/-- A base with the least number of underscores behind a name. -/
def IsLeastBase (suffix : Text) (taken : List Text) (name base : Text) : Prop :=
  ∃ count, base = name ++ underscores count ∧ IsBase suffix taken base ∧
    ∀ fewer < count, ¬ IsBase suffix taken (name ++ underscores fewer)

theorem methodName?_eq_some_iff
    {suffix name base : Text}
    {taken : List Text} :
    methodName? suffix taken name = some base ↔
      IsLeastBase suffix taken (Text.replace name '$' '_') base := by
  rw [methodName?, free?, appendUnderscores_eq_some_iff]
  simp only [isBase_iff, ← Bool.not_eq_false]
  constructor
  · rintro ⟨count, -, isFound, isBase, before⟩
    exact ⟨count, isFound, isBase, before⟩
  · rintro ⟨count, rfl, isBase, before⟩
    obtain ⟨other, inBound, isOther⟩ := exists_isBase_lt_bound ⟨count, isBase⟩
    refine ⟨count, Nat.lt_of_not_le fun isLate => ?_, rfl, isBase, before⟩
    exact before other (Nat.lt_of_lt_of_le inBound isLate) isOther

theorem methodName?_eq_none_iff
    {suffix name : Text}
    {taken : List Text} :
    methodName? suffix taken name = none ↔
      ∀ count, ¬ IsBase suffix taken (Text.replace name '$' '_' ++ underscores count) := by
  rw [methodName?, free?, appendUnderscores_eq_none_iff]
  simp only [← Bool.not_eq_false, isBase_iff]
  constructor
  · intro none count isBase
    obtain ⟨other, inBound, isOther⟩ := exists_isBase_lt_bound ⟨count, isBase⟩
    exact none other inBound isOther
  · exact fun none count _ => none count

theorem methodName?_isSome_iff
    {suffix name : Text}
    {taken : List Text} :
    (methodName? suffix taken name).isSome = true ↔
      (MakesDunder suffix ∧
          underscores 2 <+: Text.replace name '$' '_' ++ underscores 2 →
        ∃ count < 2, IsBase suffix taken (Text.replace name '$' '_' ++ underscores count)) := by
  rw [← exists_isBase_iff, Option.isSome_iff_ne_none, Ne, methodName?_eq_none_iff, not_forall_not]

/-- The name of a method has the least number of underscores behind it with which it is
available alone and in front of the suffix.  None is found only if there is no such number,
and that takes a suffix that makes a dunder name of every name that is long enough. -/
theorem methodName?_least
    (suffix name : Text)
    (taken : List Text) :
    (∀ base, methodName? suffix taken name = some base ↔
        IsLeastBase suffix taken (Text.replace name '$' '_') base) ∧
      (methodName? suffix taken name = none ↔
        ∀ count, ¬ IsBase suffix taken (Text.replace name '$' '_' ++ underscores count)) ∧
      ((methodName? suffix taken name).isSome = true ↔
        (MakesDunder suffix ∧
            underscores 2 <+: Text.replace name '$' '_' ++ underscores 2 →
          ∃ count < 2,
            IsBase suffix taken (Text.replace name '$' '_' ++ underscores count))) :=
  ⟨fun _ => methodName?_eq_some_iff, methodName?_eq_none_iff, methodName?_isSome_iff⟩

/-- A suffix that may be set leaves a function without a name, however many underscores are put
behind it. -/
theorem not_isBase_underscored :
    Options.isSuffix "a__" = true ∧
      methodName? "a__" [] "__x" = none ∧
        ∀ count, ¬ IsBase "a__" [] (Text.replace "__x" '$' '_' ++ underscores count) := by
  have noName : methodName? "a__" [] "__x" = none := by
    decide +kernel
  exact ⟨by decide +kernel, noName, methodName?_eq_none_iff.mp noName⟩

end Names

end ContractBindings
