import ContractBindings.Proofs.BoundMethods
import ContractBindings.Proofs.LiteralLines

namespace ContractBindings

/-!
# What passes the checks of a module

A module is checked before it is read: brackets are counted, names have to be givable, and the
documentation of a method has to stay in its quotes.  Main statement: a contract passes its
check exactly if the name of its class and all of its methods do.
-/

namespace Source

theorem checkBrackets_eq_ok_iff
    {count : Nat} :
    checkBrackets count = .ok () ↔ count ≤ greatestBrackets := by
  rw [checkBrackets]
  by_cases tooMany : greatestBrackets < count
  · rw [if_pos tooMany]
    exact iff_of_false nofun (Nat.not_le.mpr tooMany)
  · rw [if_neg tooMany]
    exact iff_of_true rfl (Nat.le_of_not_lt tooMany)

/-- The descriptions that a method hands on pass their check if their brackets are not too
many.  A remote method hands on none of results. -/
theorem checkDescriptions_eq_ok_iff
    {binding : FunctionBinding}
    {kind : MethodKind} :
    checkDescriptions binding kind = .ok () ↔
      1 + (Parameter.described binding.inputs).brackets ≤ greatestBrackets ∧
        (kind = .localCall →
          1 + (Parameter.described binding.outputs).brackets ≤ greatestBrackets) := by
  rw [checkDescriptions.eq_def, check_bind_eq_ok_iff, checkBrackets_eq_ok_iff]
  refine and_congr_right fun _ => ?_
  cases kind with
  | localCall =>
      exact checkBrackets_eq_ok_iff.trans ⟨fun fits _ => fits, fun fits => fits rfl⟩
  | remoteCall =>
      exact iff_of_true rfl nofun

/-- What the check of a method says of it. -/
structure PassesCheck (className : Text) (binding : FunctionBinding) (kind : MethodKind)
    (name : Text) : Prop where
  ofName : checkName (readName isLineBlank name) = .ok ()
  ofParameters :
    ∀ parameter ∈ binding.parameters, checkName (readName isInnerBlank parameter.name) = .ok ()
  nodup :
    (withShared ((parameterNames binding).map (Names.memberName className)) binding.payable).Nodup
  annotated : checkAnnotations binding kind = .ok ()
  documented :
    checkQuotedLine ((documentation binding kind).length + 1) false (documentation binding kind) =
      .ok ()
  described : checkDescriptions binding kind = .ok ()

theorem checkMethod_eq_ok_iff
    {className name : Text}
    {binding : FunctionBinding}
    {kind : MethodKind} :
    checkMethod className binding kind name = .ok () ↔ PassesCheck className binding kind name := by
  have ofNames :
      (readName isLineBlank name :: parameterNames binding).forM checkName = .ok () ↔
        checkName (readName isLineBlank name) = .ok () ∧
          ∀ parameter ∈ binding.parameters,
            checkName (readName isInnerBlank parameter.name) = .ok () := by
    rw [forM_eq_ok_iff, List.forall_mem_cons, parameterNames, List.forall_mem_map]
  simp only [checkMethod, check_bind_eq_ok_iff, refuse_eq_ok_iff, not_not, ofNames]
  exact ⟨fun ⟨⟨ofName, ofParameters⟩, nodup, annotated, documented, described⟩ =>
      ⟨ofName, ofParameters, nodup, annotated, documented, described⟩,
    fun passes => ⟨⟨passes.ofName, passes.ofParameters⟩, passes.nodup, passes.annotated,
      passes.documented, passes.described⟩⟩

/-- A contract passes its check exactly if the name of its class and all of its methods do. -/
theorem checkContract_eq_ok_iff
    {contract : ContractBinding} :
    checkContract contract = .ok () ↔
      checkName (readName isLineBlank contract.className) = .ok () ∧
        ∀ bound ∈ contract.boundMethods,
          PassesCheck (readName isLineBlank contract.className) bound.binding bound.kind
            bound.name := by
  have ofFunction :
      ∀ binding : FunctionBinding,
        checkFunction (readName isLineBlank contract.className) binding = .ok () ↔
          ∀ bound ∈ binding.boundMethods,
            PassesCheck (readName isLineBlank contract.className) bound.binding bound.kind
              bound.name := by
    intro binding
    simp only [checkFunction, check_bind_eq_ok_iff, FunctionBinding.boundMethods,
      List.forall_mem_cons, checkMethod_eq_ok_iff]
    cases binding.remoteMethod with
    | none =>
        simp [pure_eq_ok_iff]
    | some name =>
        simp [checkMethod_eq_ok_iff]
  simp only [checkContract, check_bind_eq_ok_iff, ContractBinding.boundMethods, forM_eq_ok_iff,
    ofFunction, List.forall_mem_flatMap]

end Source

end ContractBindings
