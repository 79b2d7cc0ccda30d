import ContractBindings.Proofs.MethodDocumentation
import ContractBindings.Proofs.MethodNames
import ContractBindings.Proofs.ParameterNames

namespace ContractBindings

/-!
# The methods that are bound for a contract

The functions of a contract are bound by one binder, each to a local method and to a remote
one if it has this.  Main statement: the names of all these methods are pairwise distinct, and
whatever a class keeps them under, none takes the place of a member on which calls rely.
-/

namespace Names

/-- A name stands for itself inside of a class, or it is private to the class and stands for
one with an underscore and the name of the class in front. -/
theorem memberName_cases
    (className name : Text) :
    memberName className name = name ∨
      Text.startsWith name "__" = true ∧
        ∃ first others, first ≠ CodePoint.ofChar '_' ∧
          memberName className name = "_" ++ (first :: others) ++ name := by
  rw [memberName]
  split
  case isFalse =>
    exact Or.inl rfl
  case isTrue isPrivate =>
    split
    case h_1 =>
      exact Or.inl rfl
    case h_2 notEmpty =>
      rw [Bool.and_eq_true] at isPrivate
      cases stem : className.dropWhile fun c => c = ('_' : CodePoint) with
      | nil =>
          exact absurd stem notEmpty
      | cons first others =>
          refine Or.inr ⟨isPrivate.1, first, others, ?_, rfl⟩
          have isFirst := List.head?_dropWhile_not (fun c => c = ('_' : CodePoint)) className
          rw [stem] at isFirst
          simpa using isFirst

/-- Whether a class can keep a method under a name without hiding a member that its calls
use. -/
def isOwn (kept : Text) : Bool :=
  ! contractMembers.contains kept && ! isDunder kept

theorem isOwn_memberName
    {name : Text}
    (free : IsFreeMethod name)
    (className : Text) :
    isOwn (memberName className name) = true := by
  rcases memberName_cases className name with isSame | ⟨isPrivate, first, others, notScore, kept⟩
  · have notMember : name ∉ contractMembers := by
      intro isMember
      have isUnreserved := free.mem_members_iff.mp (List.mem_append_left _ isMember)
      rw [isUnreserved] at isMember
      exact absurd isMember (by decide)
    simp [isOwn, isSame, notMember, free.notDunder]
  · have noDoubled : ∀ member ∈ contractMembers, ¬ Text.ofString "__" <:+: member := by
      decide +kernel
    have hasDoubled : Text.ofString "__" <:+: memberName className name := by
      rw [kept]
      exact (Text.startsWith_iff.mp isPrivate).isInfix.trans (List.suffix_append _ _).isInfix
    have notMember : memberName className name ∉ contractMembers :=
      fun isMember => noDoubled _ isMember hasDoubled
    have notDunder : isDunder (memberName className name) = false := by
      have noStart : Text.startsWith (memberName className name) "__" = false := by
        rw [Bool.eq_false_iff, ne_eq, Text.startsWith_iff, kept]
        rintro ⟨rest, isRest⟩
        exact notScore (List.cons.inj (List.cons.inj isRest).2).1.symm
      rw [isDunder, noStart]
      rfl
    simp [isOwn, notMember, notDunder]

end Names

/-- A method of a bound function, with the name that it is defined under. -/
structure BoundMethod where
  binding : FunctionBinding
  kind : MethodKind
  name : Text

namespace FunctionBinding

/-- The methods of a function with their names, the local one first. -/
def boundMethods (binding : FunctionBinding) : List BoundMethod :=
  ⟨binding, .localCall, binding.localMethod⟩ ::
    binding.remoteMethod.toList.map (⟨binding, .remoteCall, ·⟩)

theorem mem_boundMethods_iff
    {binding : FunctionBinding}
    {bound : BoundMethod} :
    bound ∈ binding.boundMethods ↔
      bound.binding = binding ∧ binding.methodName? bound.kind = some bound.name := by
  obtain ⟨other, kind, name⟩ := bound
  simp only [boundMethods, List.mem_cons, List.mem_map, Option.mem_toList, BoundMethod.mk.injEq]
  cases kind <;> simp [methodName?, eq_comm, and_comm]

/-- Methods that are named after bases have pairwise distinct names if the bases take such. -/
theorem nodup_names_of_namedAfter
    {suffix : Text}
    {bases : List Text}
    {bindings : List FunctionBinding}
    (named : List.Forall₂ (NamedAfter suffix) bases bindings)
    (nodup : (Names.taking suffix bases).Nodup) :
    ((bindings.flatMap boundMethods).map (·.name)).Nodup ∧
      ∀ bound ∈ bindings.flatMap boundMethods, bound.name ∈ Names.taking suffix bases := by
  induction named with
  | nil =>
      exact ⟨.nil, nofun⟩
  | @cons base binding bases bindings first _ inductionHypothesis =>
      have isTaking :
          Names.taking suffix (base :: bases) =
            [base, base ++ suffix] ++ Names.taking suffix bases :=
        rfl
      rw [isTaking] at nodup ⊢
      obtain ⟨nodupFirst, nodupOthers, apart⟩ := List.nodup_append'.mp nodup
      obtain ⟨nodupNames, inTaking⟩ := inductionHypothesis nodupOthers
      have differ : base ++ suffix ≠ base := by
        intro same
        rw [same] at nodupFirst
        simp at nodupFirst
      have ofFirst :
          (binding.boundMethods.map (·.name)).Nodup ∧
            ∀ bound ∈ binding.boundMethods, bound.name ∈ [base, base ++ suffix] := by
        rw [boundMethods, first.localMethod]
        rcases first.remoteMethod with isNone | isSome
        · rw [isNone]
          exact ⟨List.nodup_singleton _, by simp⟩
        · rw [isSome]
          exact ⟨by simpa using differ, by simp⟩
      rw [List.flatMap_cons, List.map_append]
      refine ⟨List.nodup_append'.mpr ⟨ofFirst.1, nodupNames, fun name isFirst isOther => ?_⟩,
        fun bound member => ?_⟩
      · obtain ⟨bound, isBound, rfl⟩ := List.mem_map.mp isFirst
        obtain ⟨other, isOther, sameName⟩ := List.mem_map.mp isOther
        have inOthers := inTaking other isOther
        rw [sameName] at inOthers
        exact apart (ofFirst.2 bound isBound) inOthers
      · exact (List.mem_append.mp member).elim
          (fun isFirst => List.mem_append_left _ (ofFirst.2 bound isFirst))
          (fun isOther => List.mem_append_right _ (inTaking bound isOther))

end FunctionBinding

namespace FunctionBinder

/-- What is bound in a run was bound by a binder at some point of it. -/
theorem exists_bind_of_mem_bindEach
    {binder : FunctionBinder}
    {functions : List FunctionEntry}
    {binding : FunctionBinding}
    (member : binding ∈ binder.bindEach functions) :
    ∃ before function after logs, bind before function = (.ok binding, after, logs) := by
  induction functions generalizing binder with
  | nil =>
      exact absurd member List.not_mem_nil
  | cons function functions inductionHypothesis =>
      rcases made : binder.bind function with ⟨result, after, logs⟩
      cases result with
      | error failure =>
          rw [bindEach_of_error made] at member
          exact inductionHypothesis member
      | ok first =>
          rw [bindEach_of_ok made] at member
          rcases List.mem_cons.mp member with rfl | isOther
          · exact ⟨binder, function, after, logs, made⟩
          · exact inductionHypothesis isOther

/-- The parameters of an accepted function have names that are not reserved. -/
theorem isFreeParameter_of_bind
    {binder after : FunctionBinder}
    {function : FunctionEntry}
    {binding : FunctionBinding}
    {logs : List LogRecord}
    (accepted : binder.bind function = (.ok binding, after, logs)) :
    ∀ parameter ∈ binding.parameters, Names.IsFreeParameter [] parameter.name := by
  obtain ⟨types, names, documents⟩ := documents_of_bind accepted
  obtain ⟨own, found, named⟩ := Names.exists_namedInTurn 0 [] (function.inputs.map (·.name))
  obtain rfl : own = names := Option.some.inj (found.symm.trans documents.named)
  exact fun parameter member =>
    named.isFree parameter.name (documents.parameters parameter member).1

end FunctionBinder

namespace ContractBinding

/-- The methods of a contract with their names, in the order of their text. -/
def boundMethods (contract : ContractBinding) : List BoundMethod :=
  contract.functions.flatMap (·.boundMethods)

theorem mem_boundMethods_iff
    {contract : ContractBinding}
    {bound : BoundMethod} :
    bound ∈ contract.boundMethods ↔
      bound.binding ∈ contract.functions ∧
        bound.binding.methodName? bound.kind = some bound.name := by
  simp only [boundMethods, List.mem_flatMap, FunctionBinding.mem_boundMethods_iff]
  exact ⟨fun ⟨_, member, rfl, isName⟩ => ⟨member, isName⟩,
    fun ⟨member, isName⟩ => ⟨_, member, rfl, isName⟩⟩

/-- The functions of a contract were bound by one binder. -/
def IsBoundEach (suffix : Text) (contract : ContractBinding) : Prop :=
  suffix ≠ [] ∧
    ∃ functions, contract.functions =
      FunctionBinder.bindEach ⟨contract.contractName, suffix, []⟩ functions

namespace IsBoundEach

variable {suffix : Text} {contract : ContractBinding}

/-- The names of the methods of a contract are pairwise distinct and free. -/
theorem names_apart
    (isBound : contract.IsBoundEach suffix) :
    (contract.boundMethods.map (·.name)).Nodup ∧
      ∀ bound ∈ contract.boundMethods, Names.IsFreeMethod bound.name := by
  obtain ⟨hasSuffix, functions, areBound⟩ := isBound
  obtain ⟨bases, named, nodup, free⟩ :=
    @FunctionBinder.exists_bases_of_bindEach ⟨contract.contractName, suffix, []⟩ hasSuffix functions
  obtain ⟨nodupNames, inTaking⟩ := FunctionBinding.nodup_names_of_namedAfter named nodup
  rw [boundMethods, areBound]
  exact ⟨nodupNames, fun bound member =>
    Names.isFreeMethod_of_clashesAsMethod (free bound.name (inTaking bound member))⟩

theorem exists_bind
    (isBound : contract.IsBoundEach suffix) :
    ∀ binding ∈ contract.functions, ∃ binder function after logs,
      FunctionBinder.bind binder function = (.ok binding, after, logs) := by
  obtain ⟨-, functions, areBound⟩ := isBound
  rw [areBound]
  exact fun binding member => FunctionBinder.exists_bind_of_mem_bindEach member

end IsBoundEach

end ContractBinding

namespace Assembly

/-- The functions of a contract are bound one after another, and none of them fails. -/
theorem exists_bindEach_of_bindFunctions
    {binder : FunctionBinder}
    {bound : List Text}
    {functions : List FunctionEntry}
    {bindings : List FunctionBinding}
    {logs : List LogRecord}
    (made : bindFunctions binder bound functions = .ok (bindings, logs)) :
    ∃ kept, bindings = binder.bindEach kept := by
  induction functions generalizing binder bound bindings logs with
  | nil =>
      cases made
      exact ⟨[], rfl⟩
  | cons function functions inductionHypothesis =>
      rcases bindFunctions_cases made with
        ⟨-, _, ofOthers⟩ | ⟨-, binding, after, _, others, _, ofFirst, ofOthers, rfl⟩
      · exact inductionHypothesis ofOthers
      · obtain ⟨kept, rfl⟩ := inductionHypothesis ofOthers
        exact ⟨function :: kept, (FunctionBinder.bindEach_of_ok ofFirst kept).symm⟩

/-- The functions of every contract that is added are bound by one binder. -/
theorem isBoundEach_of_addContracts
    {suffix : Text}
    {assembly next : Assembly}
    {added : List (Text × Text × Interface)}
    {logs : List LogRecord}
    (ran : addContracts suffix assembly added = .ok (next, logs))
    (areBound : ∀ contract ∈ assembly.contracts, contract.IsBoundEach suffix) :
    ∀ contract ∈ next.contracts, contract.IsBoundEach suffix := by
  refine holds_of_eachContract
    (motive := fun known => ∀ contract ∈ known.contracts, contract.IsBoundEach suffix)
    (fun addedOne areBound => ?_) ran areBound
  rcases addContract_cases addedOne with
    ⟨-, rfl⟩ | ⟨-, hasSuffix, contractClass, functions, _, _, -, ofFunctions, addedEvents⟩
  · exact areBound
  · obtain ⟨events, eventsExtend, -⟩ := extends_of_addEvents addedEvents
    rw [eventsExtend.contracts, List.append_nil, withContract]
    intro contract member
    rcases List.mem_append.mp member with known | isNew
    · exact areBound contract known
    · rw [List.mem_singleton.mp isNew]
      exact ⟨by simpa using hasSuffix, exists_bindEach_of_bindFunctions ofFunctions⟩

end Assembly

end ContractBindings
