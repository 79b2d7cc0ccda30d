import Mathlib.Data.List.Nodup
import ContractBindings.Call.Contract
import ContractBindings.Proofs.ClassNames

namespace ContractBindings

/-!
# The names of methods

A binder names the methods of one contract.  A function takes two names at once, a base
and the base with the suffix behind it, and both have to be free.  Main statement: in any
run of a binder the names that its functions take are pairwise distinct, none is a reserved
one, and only one member of all contracts can be among them.
-/

namespace Contract

/-- The member of all contracts that has an ordinary name and is not kept free. -/
def unreservedMember : Text :=
  "_is_protocol"

/-- A member of all contracts is kept free by its name, or it is written with two underscores
on either side, or it is that one. -/
theorem mem_contractMembers_or_isDunder_of_mem_members :
    ∀ name ∈ members,
      name ∈ Names.contractMembers ∨ Names.isDunder name = true ∨ name = unreservedMember := by
  decide +kernel

theorem unreservedMember_mem_members :
    unreservedMember ∈ members := by
  decide +kernel

end Contract

namespace Names

/-- A name that is no word of the language or of the module, and of the members of all
contracts at most the one that is not kept free. -/
structure IsFreeMethod (name : Text) : Prop where
  notKeyword : name ∉ keywords
  notDunder : isDunder name = false
  notReserved : name ∉ moduleNames
  mem_members_iff : name ∈ Contract.members ↔ name = Contract.unreservedMember

theorem isFreeMethod_of_clashesAsMethod
    {taken : List Text}
    {name : Text}
    (free : clashesAsMethod taken name = false) :
    IsFreeMethod name := by
  simp only [clashesAsMethod, Bool.or_eq_false_iff, List.contains_eq_mem,
    decide_eq_false_iff_not] at free
  obtain ⟨⟨⟨⟨notReserved, notMember⟩, -⟩, notKeyword⟩, notDunder⟩ := free
  refine ⟨notKeyword, notDunder, notReserved, fun isMember => ?_, ?_⟩
  · rcases Contract.mem_contractMembers_or_isDunder_of_mem_members name isMember with
      isReserved | isDunder | isUnreserved
    · exact absurd isReserved notMember
    · rw [notDunder] at isDunder
      cases isDunder
    · exact isUnreserved
  · rintro rfl
    exact Contract.unreservedMember_mem_members

/-- A name is free after another one was taken if it was free before and is not that one. -/
theorem clashesAsMethod_cons_eq_false_iff
    {taken : List Text}
    {other name : Text} :
    clashesAsMethod (other :: taken) name = false ↔
      name ≠ other ∧ clashesAsMethod taken name = false := by
  simp only [clashesAsMethod, Bool.or_eq_false_iff, List.contains_cons, beq_eq_false_iff_ne]
  tauto

/-- The base that a function gets is free, and so it is with the suffix behind it. -/
theorem clashesAsMethod_of_methodName?
    {suffix name base : Text}
    {taken : List Text}
    (found : methodName? suffix taken name = some base) :
    clashesAsMethod taken base = false ∧ clashesAsMethod taken (base ++ suffix) = false :=
  Bool.or_eq_false_iff.mp (clashes_appendUnderscores found)

/-- The names that functions take, two for each base. -/
def taking (suffix : Text) (bases : List Text) : List Text :=
  bases.flatMap fun base => [base, base ++ suffix]

end Names

namespace FunctionBinding

/-- A binding is named after a base: its local method has the suffix behind it, and its
remote method, if there is one, has not. -/
structure NamedAfter (suffix base : Text) (binding : FunctionBinding) : Prop where
  localMethod : binding.localMethod = base ++ suffix
  remoteMethod : binding.remoteMethod = none ∨ binding.remoteMethod = some base

end FunctionBinding

namespace FunctionBinder

/-- The bindings of functions that are bound one after another, without those of the
functions that could not be bound. -/
def bindEach : FunctionBinder → List FunctionEntry → List FunctionBinding
  | _, [] => []
  | binder, function :: functions =>
      match binder.bind function with
      | (.error _, after, _) => bindEach after functions
      | (.ok binding, after, _) => binding :: bindEach after functions

theorem bindEach_of_ok
    {binder after : FunctionBinder}
    {function : FunctionEntry}
    {binding : FunctionBinding}
    {logs : List LogRecord}
    (made : binder.bind function = (.ok binding, after, logs))
    (functions : List FunctionEntry) :
    binder.bindEach (function :: functions) = binding :: after.bindEach functions := by
  rw [bindEach.eq_def]
  simp only [made]

theorem bindEach_of_error
    {binder after : FunctionBinder}
    {function : FunctionEntry}
    {failure : BindingFailure}
    {logs : List LogRecord}
    (made : binder.bind function = (.error failure, after, logs))
    (functions : List FunctionEntry) :
    binder.bindEach (function :: functions) = after.bindEach functions := by
  rw [bindEach.eq_def]
  simp only [made]

/-- A binder stays as it is, or it takes a base that is free, and what it binds is named
after it. -/
theorem bind_cases
    {binder after : FunctionBinder}
    {function : FunctionEntry}
    {result : Except BindingFailure FunctionBinding}
    {logs : List LogRecord}
    (made : binder.bind function = (result, after, logs)) :
    (∃ failure, result = .error failure ∧ after = binder) ∨
      ∃ base,
        Names.methodName? binder.suffix binder.taken function.name = some base ∧
          after = { binder with taken := base :: (base ++ binder.suffix) :: binder.taken } ∧
            ∀ binding, result = .ok binding →
              FunctionBinding.NamedAfter binder.suffix base binding := by
  have attempt := attempt_bind binder function
  rw [made] at attempt
  cases attempt with
  | @refused failure =>
      exact Or.inl ⟨failure, rfl, rfl⟩
  | nameless =>
      exact Or.inl ⟨.noFreeName, rfl, rfl⟩
  | unhashed isOutline found =>
      exact Or.inr ⟨_, found, rfl, nofun⟩
  | bound isOutline found =>
      refine Or.inr ⟨_, found, rfl, ?_⟩
      rintro binding ⟨⟩
      refine ⟨rfl, ?_⟩
      rw [bindingOf]
      cases function.constant
      · exact Or.inr rfl
      · exact Or.inl rfl

/-- Names that are free after a base was taken, and the names that the base takes, are
pairwise distinct and were free before. -/
theorem free_taking_cons
    {suffix name base : Text}
    {taken bases : List Text}
    (hasSuffix : suffix ≠ [])
    (found : Names.methodName? suffix taken name = some base)
    (nodup : (Names.taking suffix bases).Nodup)
    (free :
      ∀ other ∈ Names.taking suffix bases,
        Names.clashesAsMethod (base :: (base ++ suffix) :: taken) other = false) :
    (Names.taking suffix (base :: bases)).Nodup ∧
      ∀ other ∈ Names.taking suffix (base :: bases),
        Names.clashesAsMethod taken other = false := by
  obtain ⟨freeBase, freeSuffixed⟩ := Names.clashesAsMethod_of_methodName? found
  have differ : base ≠ base ++ suffix := by
    intro same
    exact hasSuffix (List.append_right_eq_self.mp same.symm)
  have notTaken :
      ∀ other ∈ Names.taking suffix bases,
        other ≠ base ∧ other ≠ base ++ suffix ∧ Names.clashesAsMethod taken other = false := by
    intro other member
    obtain ⟨notBase, freeLater⟩ :=
      Names.clashesAsMethod_cons_eq_false_iff.mp (free other member)
    exact ⟨notBase, Names.clashesAsMethod_cons_eq_false_iff.mp freeLater⟩
  have isTaking :
      Names.taking suffix (base :: bases) =
        base :: (base ++ suffix) :: Names.taking suffix bases :=
    rfl
  rw [isTaking]
  constructor
  · refine List.nodup_cons.mpr ⟨fun member => ?_, List.nodup_cons.mpr ⟨fun member => ?_, nodup⟩⟩
    · rcases List.mem_cons.mp member with same | member
      · exact differ same
      · exact (notTaken base member).1 rfl
    · exact (notTaken (base ++ suffix) member).2.1 rfl
  · exact List.forall_mem_cons.mpr ⟨freeBase, List.forall_mem_cons.mpr
      ⟨freeSuffixed, fun other member => (notTaken other member).2.2⟩⟩

/-- The names that a run takes are pairwise distinct, and free before the run. -/
theorem exists_bases_of_bindEach
    {binder : FunctionBinder}
    (hasSuffix : binder.suffix ≠ [])
    (functions : List FunctionEntry) :
    ∃ bases,
      List.Forall₂ (FunctionBinding.NamedAfter binder.suffix) bases (binder.bindEach functions) ∧
        (Names.taking binder.suffix bases).Nodup ∧
          ∀ name ∈ Names.taking binder.suffix bases,
            Names.clashesAsMethod binder.taken name = false := by
  induction functions generalizing binder with
  | nil =>
      exact ⟨[], .nil, .nil, by simp [Names.taking]⟩
  | cons function functions inductionHypothesis =>
      rcases made : binder.bind function with ⟨result, after, logs⟩
      rcases bind_cases made with ⟨failure, rfl, rfl⟩ | ⟨base, found, isAfter, named⟩
      · rw [bindEach_of_error made]
        exact inductionHypothesis hasSuffix
      · have sameSuffix : after.suffix = binder.suffix := by
          rw [isAfter]
        obtain ⟨bases, namedAfter, nodup, free⟩ :=
          @inductionHypothesis after (sameSuffix ▸ hasSuffix)
        rw [sameSuffix] at namedAfter nodup free
        rw [isAfter] at free
        obtain ⟨nodupAll, freeAll⟩ := free_taking_cons hasSuffix found nodup free
        cases result with
        | error failure =>
            rw [bindEach_of_error made]
            exact ⟨bases, namedAfter, nodup, fun other member =>
              freeAll other (List.mem_cons_of_mem _ (List.mem_cons_of_mem _ member))⟩
        | ok binding =>
            rw [bindEach_of_ok made]
            exact ⟨base :: bases, .cons (named binding rfl) namedAfter, nodupAll, freeAll⟩

/-- In any run the names that are taken are pairwise distinct and none is reserved, whether
or not there is a remote method.  A member of all contracts is taken only if it is the one
that is not kept free. -/
theorem namesApart_of_bindEach
    {suffix : Text}
    (hasSuffix : suffix ≠ [])
    (contract : Text) :
    ∃ binder, start contract suffix = .ok binder ∧
      ∀ functions, ∃ bases,
        List.Forall₂ (FunctionBinding.NamedAfter suffix) bases (binder.bindEach functions) ∧
          (Names.taking suffix bases).Nodup ∧
            ∀ name ∈ Names.taking suffix bases, Names.IsFreeMethod name := by
  have started : start contract suffix = .ok ⟨contract, suffix, []⟩ :=
    if_neg (by simpa using hasSuffix)
  refine ⟨_, started, fun functions => ?_⟩
  obtain ⟨bases, named, nodup, free⟩ :=
    @exists_bases_of_bindEach ⟨contract, suffix, []⟩ hasSuffix functions
  exact ⟨bases, named, nodup, fun name member =>
    Names.isFreeMethod_of_clashesAsMethod (free name member)⟩

/-- A function without parameters and results. -/
def plainFunction (name : Text) (constant : Bool) : FunctionEntry :=
  ⟨name, [], [], constant, false, none⟩

/-- Functions that are named like each other with the suffix and like a member. -/
def collidingFunctions : List FunctionEntry :=
  [plainFunction "mint" false, plainFunction "mint_call" true, plainFunction "address" false,
    plainFunction "mint_" false]

theorem namesApart_of_bindEach_colliding :
    (Text.ofString "_call") ≠ [] ∧
      ∃ binder, start "C" "_call" = .ok binder ∧
        (binder.bindEach collidingFunctions).map (·.localMethod) =
            ["mint_call", "mint_call__call", "address__call", "mint__call"] ∧
          ∃ bases,
            List.Forall₂ (FunctionBinding.NamedAfter "_call") bases
                (binder.bindEach collidingFunctions) ∧
              (Names.taking "_call" bases).Nodup ∧
                ∀ name ∈ Names.taking "_call" bases, Names.IsFreeMethod name := by
  have hasSuffix : Text.ofString "_call" ≠ [] := by
    decide
  obtain ⟨binder, started, apart⟩ := namesApart_of_bindEach hasSuffix "C"
  cases started
  exact ⟨hasSuffix, _, rfl, by decide +kernel, apart collidingFunctions⟩

/-- A function that is named like a member of all contracts can keep its name. -/
theorem mem_members_of_bindEach :
    ∃ binder, start "C" "_" = .ok binder ∧
      (binder.bindEach [plainFunction "_is_protocol" false]).map (·.remoteMethod) =
          [some (Text.ofString "_is_protocol")] ∧
        Text.ofString "_is_protocol" ∈ Contract.members :=
  ⟨_, rfl, by decide +kernel, by decide +kernel⟩

end FunctionBinder

end ContractBindings
