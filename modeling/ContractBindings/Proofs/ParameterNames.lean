import ContractBindings.Proofs.IdentifierNames

namespace ContractBindings

/-!
# The names of parameters

The parameters of a method are named in turn.  Each name is made from the name in the interface,
and underscores are put behind it until it is free, which it has to be from the names before it
as well.

Main statement: every list of names is gone through to its end.  The names that come out are
pairwise distinct and free of all that is reserved, and each is the least change of what it is
made from that is free from the names before it.
-/

namespace Names

/-- What the name of a parameter is made from: the name in the interface without one underscore
in front, or a word with the place of the parameter where nothing is left. -/
inductive IsStem (place : Nat) : (name stem : Text) → Prop where
  | numbered {name : Text} (nothingLeft : name = [] ∨ name = "_") :
      IsStem place name ("arg" ++ Text.ofNat place)
  | stripped {stem : Text} (notEmpty : stem ≠ []) : IsStem place ("_" ++ stem) stem
  | kept {stem : Text} (notEmpty : stem ≠ []) (noUnderscore : ¬ Text.ofString "_" <+: stem) :
      IsStem place stem stem

theorem isStem_parameterStem
    (place : Nat)
    (name : Text) :
    IsStem place name (parameterStem place name) := by
  cases dropped : Text.dropStart? name "_" with
  | some rest =>
      have isName := Text.eq_append_of_dropStart? dropped
      rw [parameterStem, dropped, Option.getD_some]
      cases rest with
      | nil =>
          exact .numbered (Or.inr isName)
      | cons first others =>
          rw [isName]
          exact .stripped (List.cons_ne_nil first others)
  | none =>
      have noUnderscore : ¬ Text.ofString "_" <+: name := by
        rw [← Text.startsWith_iff, Text.startsWith, dropped]
        exact Bool.false_ne_true
      rw [parameterStem, dropped, Option.getD_none]
      cases name with
      | nil =>
          exact .numbered (Or.inl rfl)
      | cons first others =>
          exact .kept (List.cons_ne_nil first others) noUnderscore

/-- A free name with the least number of underscores behind what it is made from. -/
def IsLeastFree (taken : List Text) (start given : Text) : Prop :=
  ∃ count, given = start ++ underscores count ∧ IsFreeParameter taken given ∧
    ∀ fewer < count, ¬ IsFreeParameter taken (start ++ underscores fewer)

/-- A search for a name of a parameter finds the least one. -/
theorem isLeastFree_of_free?
    {taken : List Text}
    {stem given : Text}
    (found : free? (clashesAsParameter taken) taken stem = some given) :
    IsLeastFree taken (Text.replace stem '$' '_') given := by
  rw [free?, appendUnderscores_eq_some_iff] at found
  obtain ⟨count, -, isGiven, isFree, before⟩ := found
  refine ⟨count, isGiven, clashesAsParameter_eq_false_iff.mp isFree, fun fewer isFewer free => ?_⟩
  have clash := before fewer isFewer
  rw [clashesAsParameter_eq_false_iff.mpr free] at clash
  cases clash

/-- Parameters from a place on with the names given to them, where each name is the least one
that is free from those before it. -/
inductive NamedInTurn : (place : Nat) → (taken names own : List Text) → Prop where
  | nil {place : Nat} {taken : List Text} : NamedInTurn place taken [] []
  | cons {place : Nat} {taken names own : List Text} {name stem given : Text}
      (isStem : IsStem place name stem)
      (isLeast : IsLeastFree taken (Text.replace stem '$' '_') given)
      (others : NamedInTurn (place + 1) (taken ++ [given]) names own) :
      NamedInTurn place taken (name :: names) (given :: own)

theorem exists_namedInTurn
    (place : Nat)
    (taken names : List Text) :
    ∃ own,
      parameterNamesFrom? place taken names = some own ∧
        NamedInTurn place taken names own := by
  induction names generalizing place taken with
  | nil =>
      exact ⟨[], rfl, .nil⟩
  | cons name names inductionHypothesis =>
      obtain ⟨given, found, -⟩ := exists_free?_parameter taken (parameterStem place name)
      obtain ⟨own, ofOthers, others⟩ := inductionHypothesis (place + 1) (taken ++ [given])
      refine ⟨given :: own, ?_,
        .cons (isStem_parameterStem place name) (isLeastFree_of_free? found) others⟩
      rw [parameterNamesFrom?, found, Option.bind_eq_bind, Option.bind_some, ofOthers]
      rfl

/-- What is free from more names is free from fewer. -/
theorem IsFreeParameter.mono
    {taken more : List Text}
    {name : Text}
    (isFree : IsFreeParameter more name)
    (subset : taken ⊆ more) :
    IsFreeParameter taken name :=
  { isFree with notTaken := fun isTaken => isFree.notTaken (subset isTaken) }

namespace NamedInTurn

variable {place : Nat} {taken names own : List Text}

theorem length_eq
    (named : NamedInTurn place taken names own) :
    own.length = names.length := by
  induction named with
  | nil =>
      rfl
  | cons _ _ _ inductionHypothesis =>
      rw [List.length_cons, List.length_cons, inductionHypothesis]

/-- All names are free from those that were taken at the start. -/
theorem isFree
    (named : NamedInTurn place taken names own) :
    ∀ given ∈ own, IsFreeParameter taken given := by
  induction named with
  | nil =>
      exact List.forall_mem_nil _
  | cons _ isLeast _ inductionHypothesis =>
      obtain ⟨_, -, isFree, -⟩ := isLeast
      exact List.forall_mem_cons.mpr ⟨isFree, fun given member =>
        (inductionHypothesis given member).mono (List.subset_append_left _ _)⟩

theorem nodup
    (named : NamedInTurn place taken names own) :
    own.Nodup := by
  induction named with
  | nil =>
      exact List.nodup_nil
  | cons _ _ others inductionHypothesis =>
      -- The names behind a name are free from all that was taken up to it, itself included.
      refine List.nodup_cons.mpr ⟨fun member => ?_, inductionHypothesis⟩
      exact (others.isFree _ member).notTaken List.mem_concat_self

/-- What is given at a place is the least name that is free from those before it. -/
theorem isLeast_getElem?
    (named : NamedInTurn place taken names own)
    {index : Nat}
    {name : Text}
    (isName : names[index]? = some name) :
    ∃ stem given,
      own[index]? = some given ∧ IsStem (place + index) name stem ∧
        IsLeastFree (taken ++ own.take index) (Text.replace stem '$' '_') given := by
  induction named generalizing index with
  | nil =>
      cases isName
  | @cons place taken names own _ stem given isStem isLeast _ inductionHypothesis =>
      cases index with
      | zero =>
          cases isName
          rw [List.take_zero, List.append_nil]
          exact ⟨stem, given, rfl, isStem, isLeast⟩
      | succ index =>
          obtain ⟨stem, later, isLater, ofLater, least⟩ := inductionHypothesis isName
          refine ⟨stem, later, isLater, ?_, ?_⟩
          · rwa [Nat.add_right_comm] at ofLater
          · rwa [List.append_assoc] at least

end NamedInTurn

/-- Names are found for every list of parameters, as many as there are parameters.  They are
pairwise distinct, no words of the language, no parameters of all methods and no names of the
module.  Each is what it is made from, without dollar signs and with the least number of
underscores behind it that makes it free from all these and from the names before it. -/
theorem parameterNames?_distinct
    (names : List Text) :
    ∃ own,
      parameterNames? names = some own ∧ own.length = names.length ∧ own.Nodup ∧
        (∀ given ∈ own,
          given ∉ keywords ∧ given ∉ methodParameters ∧ given ∉ moduleNames) ∧
        ∀ place name, names[place]? = some name →
          ∃ stem given,
            own[place]? = some given ∧ IsStem place name stem ∧
              IsLeastFree (own.take place) (Text.replace stem '$' '_') given := by
  obtain ⟨own, found, named⟩ := exists_namedInTurn 0 [] names
  refine ⟨own, found, named.length_eq, named.nodup, fun given member => ?_,
    fun place name isName => ?_⟩
  · obtain ⟨notReserved, notShared, -, notKeyword⟩ := named.isFree given member
    exact ⟨notKeyword, notShared, notReserved⟩
  · obtain ⟨stem, given, isGiven, isStem, isLeast⟩ := named.isLeast_getElem? isName
    rw [Nat.zero_add] at isStem
    exact ⟨stem, given, isGiven, isStem, isLeast⟩

/-- A name that was changed for one before it can be what a later one is called. -/
example :
    parameterNames? ["a", "_a", "a_", "", "arg3", "self", "$"] =
      some (["a", "a_", "a__", "arg3", "arg3_", "self_", "_"] : List Text) := by
  decide +kernel

end Names

end ContractBindings
