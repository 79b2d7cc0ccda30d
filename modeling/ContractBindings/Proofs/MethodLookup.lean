import ContractBindings.Proofs.ClassReading

namespace ContractBindings

/-!
# Looking up methods

The class of a contract keeps each method under the name of its definition, but a name that
begins with two underscores is private and kept under another one.  Main statement: in the
class that is read from the text of a module, the name of a method leads to the method exactly
if the class keeps it under this name, and no later one too.
-/

namespace ContractClass

/-- What a name leads to comes last among the methods that are kept under it. -/
theorem method?_eq_some_iff_split
    {type : ContractClass}
    {wanted : Text}
    {method : Method} :
    type.method? wanted = some method ↔
      ∃ before after,
        type.methods = before ++ method :: after ∧
          Names.memberName type.name method.name = wanted ∧
            ∀ later ∈ after, Names.memberName type.name later.name ≠ wanted := by
  rw [method?]
  constructor
  · intro found
    obtain ⟨kept, later, earlier, split, notLater⟩ := List.find?_eq_some_iff_append.mp found
    refine ⟨earlier.reverse, later.reverse, ?_, by simpa using kept, fun other member => ?_⟩
    · rw [← List.reverse_reverse type.methods, split, List.reverse_append, List.reverse_cons,
        List.append_assoc, List.singleton_append]
    · simpa using notLater other (List.mem_reverse.mp member)
  · rintro ⟨before, after, split, kept, notLater⟩
    refine List.find?_eq_some_iff_append.mpr
      ⟨by simpa using kept, after.reverse, before.reverse, ?_, fun other member => ?_⟩
    · rw [split, List.reverse_append, List.reverse_cons, List.append_assoc, List.singleton_append]
    · simpa using notLater other (List.mem_reverse.mp member)

/-- The name of one of the methods leads to it exactly if it is kept under its name and
none of the later ones is. -/
theorem method?_eq_some_iff
    {type : ContractClass}
    (nodup : (type.methods.map (·.name)).Nodup)
    {before after : List Method}
    {method : Method}
    (split : type.methods = before ++ method :: after) :
    type.method? method.name = some method ↔
      Names.memberName type.name method.name = method.name ∧
        ∀ later ∈ after, Names.memberName type.name later.name ≠ method.name := by
  refine method?_eq_some_iff_split.trans ⟨?_, fun ⟨kept, notLater⟩ =>
    ⟨before, after, split, kept, notLater⟩⟩
  rintro ⟨otherBefore, otherAfter, otherSplit, kept, notLater⟩
  -- A method stands in one place.
  have nodupMethods : (before ++ method :: after).Nodup := by
    rw [← split]
    exact List.Nodup.of_map (·.name) nodup
  obtain ⟨notAround, -⟩ := List.nodup_cons.mp (List.nodup_middle.mp nodupMethods)
  obtain ⟨notBefore, notAfter⟩ := not_or.mp (mt List.mem_append.mpr notAround)
  obtain ⟨-, -, rfl⟩ :=
    (List.append_cons_inj_of_notMem notBefore notAfter).mp (split.symm.trans otherSplit)
  exact ⟨kept, notLater⟩

/-- Where no name is private to the class, every name leads to its method. -/
theorem method?_of_notPrivate
    {type : ContractClass}
    (nodup : (type.methods.map (·.name)).Nodup)
    (notPrivate :
      ∀ method ∈ type.methods, Names.memberName type.name method.name = method.name) :
    ∀ method ∈ type.methods, type.method? method.name = some method := by
  intro method member
  obtain ⟨before, after, split⟩ := List.append_of_mem member
  refine (method?_eq_some_iff nodup split).mpr ⟨notPrivate method member, ?_⟩
  intro later isLater
  have inMethods : later ∈ type.methods := by
    rw [split]
    exact List.mem_append_right before (List.mem_cons_of_mem _ isLater)
  rw [notPrivate later inMethods]
  intro sameName
  rw [split, List.map_append, List.map_cons, List.nodup_middle, List.nodup_cons] at nodup
  have isLaterName : later.name ∈ after.map (·.name) :=
    List.mem_map_of_mem isLater
  rw [sameName] at isLaterName
  exact nodup.1 (List.mem_append_right _ isLaterName)

end ContractClass

namespace Assembly

/-- In the class that is read from the text written for a contract, the name of a method leads
to this method exactly if it is not private to the class and no later method with a private
name is kept under it.  So each name that a binding announces leads to the method of this
binding where none is private. -/
theorem method?_iff_of_ofOutput
    {suffix : Text}
    {output : CompilerOutput}
    {assembly : Assembly}
    {logs : List LogRecord}
    (assembled : ofOutput suffix output = .ok (assembly, logs))
    {contract : ContractBinding}
    (isContract : contract ∈ assembly.contracts)
    {normal : Text → Text}
    (hasNames : contract.HasNormalNames normal)
    (checked : Source.checkContract contract = .ok ()) :
    ∃ type,
      Source.readClass? normal (Source.codeLines (Source.contractClass contract)) = some type ∧
        type.name = contract.className ∧
        type.methods = contract.functions.flatMap (·.methods) ∧
        (∀ before method after, type.methods = before ++ method :: after →
          (type.method? method.name = some method ↔
            Names.memberName type.name method.name = method.name ∧
              ∀ later ∈ after, Names.memberName type.name later.name ≠ method.name)) ∧
        ((∀ method ∈ type.methods, Names.memberName type.name method.name = method.name) →
          ∀ binding ∈ contract.functions, ∀ kind name, binding.methodName? kind = some name →
            type.method? name = some (binding.method kind name)) := by
  have isBound : contract.IsBoundEach suffix :=
    isBoundEach_of_addContracts assembled nofun contract isContract
  have nodup := isBound.nodup_toClass
  refine ⟨contract.toClass, Source.readClass?_contractClass isBound hasNames checked, rfl, rfl,
    fun before method after split => ContractClass.method?_eq_some_iff nodup split, ?_⟩
  intro notPrivate binding isFunction kind name isName
  exact ContractClass.method?_of_notPrivate nodup notPrivate _
    (ContractBinding.method_mem_toClass isFunction isName)

/-- A contract with a function that has a private name, behind one that has the name under
which the class keeps it. -/
def privateOutput : CompilerOutput :=
  ⟨[("s", [("C", [.function (FunctionBinder.plainFunction "mint" true),
    .function (FunctionBinder.plainFunction "_C__burn" true),
    .function (FunctionBinder.plainFunction "__burn" true)])])]⟩

/-- The contract, with its three functions. -/
structure IsPrivateContract (contract : ContractBinding)
    (mint public_ private_ : FunctionBinding) : Prop where
  className : contract.className = "C"
  functions : contract.functions = [mint, public_, private_]
  boundMethods :
    contract.boundMethods =
      [⟨mint, .localCall, "mint_"⟩, ⟨public_, .localCall, "_C__burn_"⟩,
        ⟨private_, .localCall, "__burn_"⟩]
  noParameters : ∀ binding ∈ contract.functions, binding.parameters = []
  checked : Source.checkContract contract = .ok ()

theorem exists_isPrivateContract :
    ∃ assembly logs contract mint public_ private_,
      ofOutput "_" privateOutput = .ok (assembly, logs) ∧ contract ∈ assembly.contracts ∧
        IsPrivateContract contract mint public_ private_ :=
  ⟨_, _, _, _, _, _, rfl, .head _, rfl, rfl, rfl,
    List.forall_mem_cons.mpr ⟨rfl, List.forall_mem_cons.mpr
      ⟨rfl, List.forall_mem_singleton.mpr rfl⟩⟩, rfl⟩

theorem IsPrivateContract.hasNormalNames
    {contract : ContractBinding}
    {mint public_ private_ : FunctionBinding}
    (isContract : IsPrivateContract contract mint public_ private_) :
    contract.HasNormalNames id := by
  refine ⟨⟨?_, rfl⟩, fun bound member => ⟨?_, rfl⟩, fun binding isFunction parameter member => ?_⟩
  · rw [isContract.className]
    decide
  · have areNames :
        ∀ name ∈ (["mint_", "_C__burn_", "__burn_"] : List Text),
          Text.isIdentifier name = true := by
      decide
    rw [isContract.boundMethods] at member
    exact areNames bound.name (List.mem_map_of_mem member)
  · rw [isContract.noParameters binding isFunction] at member
    cases member

/-- The local methods of three functions. -/
def privateMethods (mint public_ private_ : FunctionBinding) : List Method :=
  [mint.method .localCall "mint_", public_.method .localCall "_C__burn_",
    private_.method .localCall "__burn_"]

theorem IsPrivateContract.toClass_eq
    {contract : ContractBinding}
    {mint public_ private_ : FunctionBinding}
    (isContract : IsPrivateContract contract mint public_ private_) :
    contract.toClass = ⟨"C", privateMethods mint public_ private_⟩ := by
  have areMethods := contract.methods_toClass
  rw [isContract.boundMethods] at areMethods
  rw [ContractBinding.toClass, isContract.className, ContractClass.mk.injEq]
  exact ⟨rfl, areMethods⟩

theorem method?_iff_of_ofOutput_private :
    ∃ assembly logs contract type mint,
      ofOutput "_" privateOutput = .ok (assembly, logs) ∧ contract ∈ assembly.contracts ∧
        contract.HasNormalNames id ∧ Source.checkContract contract = .ok () ∧
          Source.readClass? id (Source.codeLines (Source.contractClass contract)) = some type ∧
            type.method? "mint_" = some (FunctionBinding.method mint .localCall "mint_") := by
  obtain ⟨assembly, logs, contract, mint, public_, private_, assembled, isContract, isPrivate⟩ :=
    exists_isPrivateContract
  obtain ⟨type, isRead, sameName, areMethods, leads, -⟩ :=
    method?_iff_of_ofOutput assembled isContract isPrivate.hasNormalNames isPrivate.checked
  have split : type.methods = [] ++ privateMethods mint public_ private_ :=
    areMethods.trans (congrArg ContractClass.methods isPrivate.toClass_eq)
  have isMethod := (leads [] (mint.method .localCall "mint_") _ split).mpr
  have keptApart :
      Names.memberName "C" "mint_" = "mint_" ∧
        ∀ name ∈ (["_C__burn_", "__burn_"] : List Text), Names.memberName "C" name ≠ "mint_" := by
    decide
  rw [sameName, isPrivate.className] at isMethod
  refine ⟨assembly, logs, contract, type, mint, assembled, isContract, isPrivate.hasNormalNames,
    isPrivate.checked, isRead, isMethod ⟨keptApart.1, fun later isLater => ?_⟩⟩
  exact keptApart.2 later.name (List.mem_map_of_mem isLater)

/-- The name of a private method leads to nothing, and the name under which the class keeps it
leads to it and not to the method of this name. -/
theorem method?_private :
    ∃ assembly logs contract type public_ private_,
      ofOutput "_" privateOutput = .ok (assembly, logs) ∧ contract ∈ assembly.contracts ∧
        Source.readClass? id (Source.codeLines (Source.contractClass contract)) = some type ∧
          public_ ∈ contract.functions ∧
            FunctionBinding.methodName? public_ .localCall = some (Text.ofString "_C__burn_") ∧
              private_ ∈ contract.functions ∧
                FunctionBinding.methodName? private_ .localCall = some (Text.ofString "__burn_") ∧
                  type.method? "__burn_" = none ∧
                    type.method? "_C__burn_" = some (private_.method .localCall "__burn_") := by
  obtain ⟨assembly, logs, contract, mint, public_, private_, assembled, isContract, isPrivate⟩ :=
    exists_isPrivateContract
  have isBound : contract.IsBoundEach "_" :=
    isBoundEach_of_addContracts assembled nofun contract isContract
  have isRead := Source.readClass?_contractClass isBound isPrivate.hasNormalNames isPrivate.checked
  rw [isPrivate.toClass_eq] at isRead
  have areBound :
      ∀ bound ∈ contract.boundMethods, bound.binding ∈ contract.functions ∧
        bound.binding.methodName? bound.kind = some bound.name :=
    fun bound => ContractBinding.mem_boundMethods_iff.mp
  simp only [isPrivate.boundMethods, List.forall_mem_cons] at areBound
  obtain ⟨-, ofPublic, ofPrivate, -⟩ := areBound
  exact ⟨assembly, logs, contract, _, public_, private_, assembled, isContract, isRead,
    ofPublic.1, ofPublic.2, ofPrivate.1, ofPrivate.2, rfl, rfl⟩

end Assembly

end ContractBindings
