import ContractBindings.Proofs.ClassReading

namespace ContractBindings

/-!
# Calls of generated methods

The methods of a contract are those of the class that is read from the text written for it.
Main statement: whatever a method of a function is called with, it hands on one transaction,
with the selector of the canonical signature and the arguments encoded under the types in it,
or nothing at all, and the answer to a local call comes back in the shape of the declared
results.
-/

namespace Contract

/-- A method that is read from the text of a class encodes well typed arguments under the
types of the signature and hands on one transaction, or nothing if the arguments are refused.
A local one makes the declared results of an answer that encodes them. -/
theorem call_generatedMethod
    {suffix : Text}
    {contract : ContractBinding}
    (isBound : contract.IsBoundEach suffix)
    {normal : Text → Text}
    (hasNames : contract.HasNormalNames normal)
    (checked : Source.checkContract contract = .ok ())
    {binder after : FunctionBinder}
    {function : FunctionEntry}
    {binding : FunctionBinding}
    {logs : List LogRecord}
    (accepted : binder.bind function = (.ok binding, after, logs))
    (isFunction : binding ∈ contract.functions)
    {kind : MethodKind}
    {name : Text}
    (isName : binding.methodName? kind = some name)
    {positional : List Value}
    (asMany : positional.length = function.inputs.length)
    {payment : Option Value}
    (payable : payment.isSome = true → function.payable = true)
    (answer receipt : Value) :
    ∃ type method types,
      Source.readClass? normal (Source.codeLines (Source.contractClass contract)) = some type ∧
        method ∈ type.methods ∧ method.name = name ∧
        Parameter.canonicalTypes (some ⟨binder.contract, function.name⟩) function.inputs =
          .ok types ∧
        (Parameter.descriptions function.inputs).mapM Description.ownType = .ok types ∧
        ∀ registry address called, type.method? called = some method →
          let outcome :=
            call ⟨type, registry, address⟩ called positional (attachedValue payment) answer receipt
          (∀ failure,
            Codec.encodeParameters (Parameter.descriptions function.inputs) positional =
                .error failure →
              outcome = ⟨[], .error (.codec failure)⟩) ∧
          ∀ declarations, DeclaredType.TypedFor function.inputs declarations positional →
            types = DeclaredType.signatures declarations ∧
              ∃ data,
                DeclaredType.encoding? declarations positional = some data ∧
                  outcome.sent =
                    [kind.handsOn
                      ⟨address,
                        (Keccak.digest (Text.utf8 (signatureOf function.name types))).take 4 ++
                          data,
                        carried payment⟩] ∧
                  ∀ resultDeclarations results encodedResults,
                    kind = .localCall →
                      DeclaredType.TypedFor function.outputs resultDeclarations results →
                      DeclaredType.allDistinctKeys resultDeclarations = true →
                      (function.outputs.map (·.name)).Nodup →
                      DeclaredType.encoding? resultDeclarations results = some encodedResults →
                      encodedResults.length < twoTo 63 →
                      answer = .bytes encodedResults →
                        outcome.result =
                          .ok (.value (returned function.outputs
                            (DeclaredType.allOrdered resultDeclarations results))) := by
  obtain ⟨types, bound⟩ := FunctionBinder.bound_of_bind accepted
  have encodedTypes := Parameter.mapM_ownType_of_canonicalTypes bound.canonical
  refine ⟨contract.toClass, binding.method kind name, types,
    Source.readClass?_contractClass isBound hasNames checked,
    ContractBinding.method_mem_toClass isFunction isName, rfl, bound.canonical, encodedTypes, ?_⟩
  intro registry address called found
  have isMethod :
      (⟨contract.toClass, registry, address⟩ : Contract).type.method? called =
        some (binding.method kind name) :=
    found
  refine ⟨fun failure refused => ?_, fun declarations typed => ?_⟩
  · exact call_of_refused bound isMethod asMany payable refused answer receipt
  · have described := DeclaredType.describe_of_declare typed.declared
    have signed := DeclaredType.mapM_ownType_of_describe described
    rw [encodedTypes] at signed
    obtain ⟨data, isEncoding, encoded⟩ :=
      DeclaredType.encodeParameters_eq described typed.valid typed.readable typed.hold
    have outcome := call_of_encoded bound isMethod asMany payable encoded answer receipt
    refine ⟨Except.ok.inj signed, data, isEncoding, congrArg CallOutcome.sent outcome, ?_⟩
    rintro resultDeclarations results encodedResults rfl resultsTyped distinct namesDistinct
      resultsEncoded holdable rfl
    rw [outcome, resultAfter, bound.outputs, bound.shape]
    exact localResult_eq_returned bound.named resultsTyped distinct namesDistinct resultsEncoded
      holdable

/-- What makes the class of a contract with a single function readable. -/
theorem readClass?_single
    {binding : FunctionBinding}
    {after : FunctionBinder}
    {function : FunctionEntry}
    {logs : List LogRecord}
    (accepted : FunctionBinder.bind ⟨"C", "_", []⟩ function = (.ok binding, after, logs))
    (isLocal : binding.localMethod = "f_")
    (isRemote : binding.remoteMethod = some (Text.ofString "f"))
    (areNames : ∀ parameter ∈ binding.parameters, parameter.name = "x")
    (checked : Source.checkContract (.single binding) = .ok ()) :
    (ContractBinding.single binding).IsBoundEach "_" ∧
      (ContractBinding.single binding).HasNormalNames id ∧
        Source.readClass? id (Source.codeLines (Source.contractClass (.single binding))) =
          some (withFunction binding).type := by
  have isBound : (ContractBinding.single binding).IsBoundEach "_" :=
    ⟨by decide, [function], (FunctionBinder.bindEach_of_ok accepted []).symm⟩
  have areIdentifiers :
      ∀ name ∈ (["C", "f_", "f", "x"] : List Text), Text.isIdentifier name = true := by
    decide
  have hasNames : (ContractBinding.single binding).HasNormalNames id := by
    refine ⟨⟨areIdentifiers "C" (by decide), rfl⟩, fun bound member => ⟨?_, rfl⟩,
      fun other isFunction parameter member => ⟨?_, rfl⟩⟩
    · obtain ⟨isFunction, isName⟩ := ContractBinding.mem_boundMethods_iff.mp member
      rw [List.mem_singleton.mp isFunction] at isName
      cases kind : bound.kind with
      | localCall =>
          rw [kind, FunctionBinding.methodName?, isLocal] at isName
          rw [← Option.some.inj isName]
          exact areIdentifiers "f_" (by decide)
      | remoteCall =>
          rw [kind, FunctionBinding.methodName?, isRemote] at isName
          rw [← Option.some.inj isName]
          exact areIdentifiers "f" (by decide)
    · rw [List.mem_singleton.mp isFunction] at member
      rw [areNames parameter member]
      exact areIdentifiers "x" (by decide)
  exact ⟨isBound, hasNames, Source.readClass?_contractClass isBound hasNames checked⟩

/-- A function that takes a truth value and returns another one with a text. -/
def flagFunction : FunctionEntry where
  name := "f"
  inputs := [⟨"x", "bool", none, none⟩]
  outputs := [⟨"a", "bool", none, none⟩, ⟨"b", "string", none, none⟩]
  constant := false
  payable := true
  stateMutability := none

/-- A paid call of a function with two results returns a mapping with both. -/
theorem call_generatedMethod_flagFunction :
    ∃ binding after logs type data answer,
      FunctionBinder.bind ⟨"C", "_", []⟩ flagFunction = (.ok binding, after, logs) ∧
        Source.readClass? id (Source.codeLines (Source.contractClass (.single binding))) =
            some type ∧
          call ⟨type, ⟨[], []⟩, List.replicate 20 1⟩ "f_" [.bool true]
              [("attached_value", .int 5)] (.bytes answer) .null =
            ⟨[.call
              ⟨List.replicate 20 1,
                (Keccak.digest (Text.utf8 "f(bool)")).take 4 ++ data, some (.int 5)⟩],
              .ok (.value (.dict [(.text "a", .bool true), (.text "b", .text "hi")]))⟩ := by
  obtain ⟨binding, after, logs, accepted, isLocal, isRemote, areNames, checked⟩ :
      ∃ binding after logs,
        FunctionBinder.bind ⟨"C", "_", []⟩ flagFunction = (.ok binding, after, logs) ∧
          binding.localMethod = "f_" ∧ binding.remoteMethod = some (Text.ofString "f") ∧
            (∀ parameter ∈ binding.parameters, parameter.name = "x") ∧
              Source.checkContract (.single binding) = .ok () :=
    ⟨_, _, _, rfl, rfl, rfl, List.forall_mem_singleton.mpr rfl,
      eq_ok_of_toOption (by decide +kernel)⟩
  obtain ⟨isBound, hasNames, isRead⟩ :=
    readClass?_single accepted isLocal isRemote areNames checked
  let inputs : Declarations := [("x", .scalar .bool)]
  let outputs : Declarations := [("a", .scalar .bool), ("b", .scalar .string)]
  have inputsTyped : DeclaredType.TypedFor flagFunction.inputs inputs [.bool true] :=
    ⟨⟨rfl, rfl, trivial, trivial⟩, by rfl, by decide +kernel, by rfl⟩
  have outputsTyped :
      DeclaredType.TypedFor flagFunction.outputs outputs [.bool true, .text "hi"] :=
    ⟨⟨rfl, rfl, trivial, rfl, rfl, trivial, trivial⟩, by rfl, by decide +kernel, by rfl⟩
  have isShort :
      ((DeclaredType.encoding? outputs [.bool true, .text "hi"]).getD []).length < twoTo 63 := by
    decide +kernel
  obtain ⟨answer, isAnswer, holdable⟩ :=
    DeclaredType.exists_encoding?_of_lt outputsTyped.hold isShort
  have asMany : [Value.bool true].length = flagFunction.inputs.length := by
    rfl
  have payable : (some (Value.int 5)).isSome = true → flagFunction.payable = true := by
    exact fun _ => rfl
  have isName : binding.methodName? .localCall = some (Text.ofString "f_") :=
    congrArg some isLocal
  obtain ⟨type, method, types, isReadAs, isMember, hasName, -, -, calls⟩ :=
    call_generatedMethod isBound hasNames checked accepted (.head _) isName asMany payable
      (.bytes answer) .null
  obtain rfl : type = (withFunction binding).type :=
    Option.some.inj (isReadAs.symm.trans isRead)
  have isMethod : (withFunction binding).type.method? "f_" = some method := by
    have isOwn :
        binding.method .localCall "f_" ∈ (ContractBinding.single binding).toClass.methods :=
      ContractBinding.method_mem_toClass (.head _) isName
    rw [List.inj_on_of_nodup_map isBound.nodup_toClass isMember isOwn hasName]
    exact method?_withFunction isLocal isRemote
  obtain ⟨-, sends⟩ := calls ⟨[], []⟩ (List.replicate 20 1) "f_" isMethod
  obtain ⟨rfl, data, -, sent, returns⟩ := sends inputs inputsTyped
  have result := returns outputs [.bool true, .text "hi"] answer rfl outputsTyped rfl
    (by decide) isAnswer holdable rfl
  refine ⟨binding, after, logs, _, data, answer, accepted, isRead, ?_⟩
  exact congr (congrArg CallOutcome.mk sent) result

/-- A function that takes texts, in whatever arrays. -/
def textsFunction (type : DeclaredType) : FunctionEntry where
  name := "f"
  inputs := [⟨"x", type.text, none, none⟩]
  outputs := []
  constant := false
  payable := false
  stateMutability := none

/-- The binding of such a function. -/
structure BindsTexts (type : DeclaredType) (binding : FunctionBinding) : Prop where
  localMethod : binding.localMethod = "f_"
  remoteMethod : binding.remoteMethod = some (Text.ofString "f")
  parameters :
    binding.parameters = [⟨"x", TypeExpression.listed (.named "str") type.depth, type.text⟩]
  returnType : binding.returnType = .named "None"
  payable : binding.payable = false

/-- The function is accepted if its arrays are. -/
theorem bind_textsFunction
    {type : DeclaredType}
    (isTexts : type.stem = .scalar .string)
    (shallow : type.depth ≤ TypeExpression.greatestNesting)
    (valid : type.isValid = true) :
    ∃ binding after logs,
      FunctionBinder.bind ⟨"C", "_", []⟩ (textsFunction type) = (.ok binding, after, logs) ∧
        BindsTexts type binding := by
  have plain : type.Has none := by
    rw [← DeclaredType.has_stem, isTexts]
    trivial
  have declared : DeclaredType.Declare [("x", type)] (textsFunction type).inputs :=
    ⟨rfl, rfl, plain, trivial⟩
  have allValid : DeclaredType.allValid [("x", type)] = true := by
    simp [DeclaredType.allValid, valid]
  have signed := DeclaredType.canonicalTypes_of_declare allValid declared (some ⟨"C", "f"⟩)
  have isList := DeclaredType.ofParameter_texts isTexts shallow (some ⟨"C", "f"⟩) [] "x"
  have outlined :
      FunctionBinder.outline ⟨"C", "f"⟩ (textsFunction type) =
        .ok ⟨signatureOf "f" [type.signature],
          [⟨"x", TypeExpression.listed (.named "str") type.depth, type.text⟩],
          .named "None"⟩ := by
    rw [FunctionBinder.outline, functionSignature]
    simp only [textsFunction, List.mapM_cons, isList] at signed ⊢
    rw [signed]
    rfl
  have isText : Text.isScalar (signatureOf "f" [type.signature]) = true :=
    DeclaredType.isScalar_signatureOf (by decide) [("x", type)]
  have hashed : selector (signatureOf "f" [type.signature]) =
      .ok ((Keccak.digest (Text.utf8 (signatureOf "f" [type.signature]))).take 4) := by
    rw [selector, hashText, if_pos isText]
    rfl
  have named : Names.methodName? "_" [] "f" = some (Text.ofString "f") := by
    rfl
  exact ⟨_, _, _, FunctionBinder.bind_of_hashed outlined named hashed, rfl, rfl, rfl, rfl, rfl⟩

theorem brackets_listed
    (element : TypeExpression)
    (count : Nat) :
    (TypeExpression.listed element count).brackets = count + element.brackets := by
  induction count with
  | zero =>
      rw [TypeExpression.listed, Nat.zero_add]
  | succ count inductionHypothesis =>
      rw [TypeExpression.listed, TypeExpression.brackets, inductionHypothesis,
        Nat.add_right_comm]

/-- The documentation of a function without results is nothing but texts between quotes. -/
theorem documented_of_noResults
    {binder after : FunctionBinder}
    {function : FunctionEntry}
    {binding : FunctionBinding}
    {logs : List LogRecord}
    (accepted : binder.bind function = (.ok binding, after, logs))
    (namePlain : function.name.IsPlain)
    (inputsPlain : ∀ input ∈ function.inputs, input.name.IsPlain)
    (noResults : function.outputs = [])
    (kind : MethodKind) :
    Source.checkQuotedLine ((Source.documentation binding kind).length + 1) false
        (Source.documentation binding kind) =
      .ok () := by
  obtain ⟨types, names, documents⟩ := FunctionBinder.documents_of_bind accepted
  obtain ⟨signaturePlain, parametersPlain, typesPlain⟩ :=
    FunctionBinder.isPlain_of_documents documents namePlain inputsPlain
  refine Source.checkQuotedLine_documentation ((Source.staysQuoted_documented_iff signaturePlain
    parametersPlain typesPlain kind).mpr fun _ => ?_)
  rw [documents.outputs, noResults]
  exact nofun

/-- The class of the contract can be read if the brackets of the arrays are not too many. -/
theorem checkContract_textsFunction
    {type : DeclaredType}
    (fits : 1 + type.depth ≤ Source.greatestBrackets)
    {binding : FunctionBinding}
    {after : FunctionBinder}
    {logs : List LogRecord}
    (accepted :
      FunctionBinder.bind ⟨"C", "_", []⟩ (textsFunction type) = (.ok binding, after, logs))
    (binds : BindsTexts type binding) :
    Source.checkContract (.single binding) = .ok () := by
  obtain ⟨types, bound⟩ := FunctionBinder.bound_of_bind accepted
  have areNames : Source.parameterNames binding = [Text.ofString "x"] := by
    rw [Source.parameterNames, binds.parameters]
    rfl
  have isApart :
      (Source.withShared ([Text.ofString "x"].map (Names.memberName "C")) false).Nodup := by
    decide
  have arePlain : Text.IsPlain "f" ∧ Text.IsPlain "x" :=
    ⟨List.all_eq_true.mp (by decide), List.all_eq_true.mp (by decide)⟩
  refine Source.checkContract_eq_ok_iff.mpr ⟨rfl, fun method member => ?_⟩
  obtain ⟨isFunction, isName⟩ := ContractBinding.mem_boundMethods_iff.mp member
  obtain ⟨other, kind, name⟩ := method
  obtain rfl : other = binding := List.mem_singleton.mp isFunction
  constructor
  case ofName =>
    cases kind with
    | localCall =>
        rw [← Option.some.inj (isName.symm.trans (congrArg some binds.localMethod)).symm]
        rfl
    | remoteCall =>
        rw [← Option.some.inj (isName.symm.trans binds.remoteMethod).symm]
        rfl
  case ofParameters =>
    rw [binds.parameters]
    exact List.forall_mem_singleton.mpr rfl
  case nodup =>
    rw [areNames, binds.payable]
    exact isApart
  case annotated =>
    have ofParameter :
        other.parameters.forM
            (fun p => Source.checkBrackets (1 + p.expression.brackets)) =
          .ok () := by
      rw [forM_eq_ok_iff, binds.parameters, List.forall_mem_singleton, brackets_listed]
      exact Source.checkBrackets_eq_ok_iff.mpr fits
    rw [Source.checkAnnotations.eq_def, check_bind_eq_ok_iff]
    refine ⟨ofParameter, ?_⟩
    cases kind with
    | localCall =>
        dsimp only
        rw [binds.returnType]
        rfl
    | remoteCall =>
        rfl
  case documented =>
    exact documented_of_noResults accepted arePlain.1
      (List.forall_mem_singleton.mpr arePlain.2) rfl kind
  case described =>
    have ofInputs : (Parameter.described (textsFunction type).inputs).brackets = 2 := rfl
    have ofOutputs : (Parameter.described (textsFunction type).outputs).brackets = 1 := rfl
    rw [Source.checkDescriptions_eq_ok_iff, bound.inputs, bound.outputs, ofInputs, ofOutputs]
    exact ⟨by decide, fun _ => by decide⟩

/-- A well typed argument of an accepted function is not handed on by the method that is read
from the text of its class, for a fault. -/
def Refuses (type : DeclaredType) (v : Value) (fault : Fault) : Prop :=
  DeclaredType.WellTyped type .absent v ∧
    ∃ binding after logs loaded,
      FunctionBinder.bind ⟨"C", "_", []⟩ (textsFunction type) = (.ok binding, after, logs) ∧
        Source.readClass? id (Source.codeLines (Source.contractClass (.single binding))) =
            some loaded ∧
          call ⟨loaded, ⟨[], []⟩, List.replicate 20 1⟩ "f_" [v] [] .null .null =
            ⟨[], .error (.codec (.fault fault))⟩

/-- What the codec refuses is not handed on. -/
theorem refuses_of_encodeParameters
    {type : DeclaredType}
    (isTexts : type.stem = .scalar .string)
    (fits : 1 + type.depth ≤ Source.greatestBrackets)
    {v : Value}
    (wellTyped : DeclaredType.WellTyped type .absent v)
    {fault : Fault}
    (refused :
      Codec.encodeParameters [type.describeAs .absent] [v] = .error (.fault fault)) :
    Refuses type v fault := by
  have valid : type.isValid = true := by
    simpa [DeclaredType.allValid] using wellTyped.valid
  have shallow : type.depth ≤ TypeExpression.greatestNesting := by
    rw [Source.greatestBrackets] at fits
    rw [TypeExpression.greatestNesting]
    omega
  obtain ⟨binding, after, logs, accepted, binds⟩ := bind_textsFunction isTexts shallow valid
  obtain ⟨-, -, isRead⟩ :=
    readClass?_single accepted binds.localMethod binds.remoteMethod
      (by rw [binds.parameters]; exact List.forall_mem_singleton.mpr rfl)
      (checkContract_textsFunction fits accepted binds)
  have isMethod := method?_withFunction binds.localMethod binds.remoteMethod
  have asMany : [v].length = (textsFunction type).inputs.length := by
    rfl
  have payable :
      (none : Option Value).isSome = true → (textsFunction type).payable = true := by
    intro isSome
    cases isSome
  obtain ⟨types, bound⟩ := FunctionBinder.bound_of_bind accepted
  exact ⟨wellTyped, binding, after, logs, _, accepted, isRead,
    call_of_refused bound isMethod asMany payable refused .null .null⟩

/-- Beyond the limits of the reader well typed arguments are not handed on, and beyond
those of memory the results in the answer are not returned. -/
theorem call_generatedMethod_beyond_limits :
    Refuses (DeclaredType.sizedArrays (tenTo 4300)) (.list []) .unreadableSize ∧
      Refuses (DeclaredType.nestedArrays 191) (.list []) .tooNested ∧
        ∃ binding after logs loaded data,
          FunctionBinder.bind ⟨"C", "_", []⟩ bytesFunction = (.ok binding, after, logs) ∧
          Source.readClass? id (Source.codeLines (Source.contractClass (.single binding))) =
              some loaded ∧
          DeclaredType.encoding? [([], .scalar .bytes)]
              [.bytes (List.replicate (twoTo 63) 0)] =
            some data ∧
          (call ⟨loaded, ⟨[], []⟩, List.replicate 20 1⟩ "f_" [] [] (.bytes data) .null).result =
            .error (.codec (.fault .overflow)) := by
  refine ⟨?_, ?_, ?_⟩
  · have notZero := Text.tenTo_ne_zero 4300
    have wellTyped := DeclaredType.wellTyped_sizedArrays notZero
    exact refuses_of_encodeParameters rfl (by decide) wellTyped
      (DeclaredType.encodeParameters_longSize wellTyped
        (DeclaredType.ofText_sizedArrays (Nat.le_refl _) notZero))
  · have wellTyped := DeclaredType.wellTyped_nestedArrays 190
    obtain ⟨isTexts, depth⟩ := DeclaredType.stem_nestedArrays 191
    exact refuses_of_encodeParameters isTexts (by rw [depth]; decide) wellTyped
      (DeclaredType.encodeParameters_tooNested wellTyped
        (DeclaredType.ofText_nestedArrays (by decide)))
  · have isLong : (List.replicate (twoTo 63) (0 : UInt8)).length = twoTo 63 :=
      List.length_replicate
    have outputsDescribed :
        DeclaredType.Describe [([], .scalar .bytes)]
          (Parameter.descriptions bytesFunction.outputs) :=
      ⟨rfl, rfl, trivial, trivial⟩
    obtain ⟨isEncoding, lost⟩ :=
      DeclaredType.decodeParameters_tooLong outputsDescribed (by rw [isLong]; decide)
        (Nat.le_of_eq isLong.symm)
    obtain ⟨binding, after, logs, accepted, isMethod, fails⟩ := result_bytesFunction
    obtain ⟨isLocal, isRemote, areNames, checked⟩ :
        binding.localMethod = "f_" ∧ binding.remoteMethod = some (Text.ofString "f") ∧
          (∀ parameter ∈ binding.parameters, parameter.name = "x") ∧
            Source.checkContract (.single binding) = .ok () := by
      obtain ⟨other, _, _, same, facts⟩ :
          ∃ other after logs,
            FunctionBinder.bind ⟨"C", "_", []⟩ bytesFunction = (.ok other, after, logs) ∧
              other.localMethod = "f_" ∧ other.remoteMethod = some (Text.ofString "f") ∧
                (∀ parameter ∈ other.parameters, parameter.name = "x") ∧
                  Source.checkContract (.single other) = .ok () :=
        ⟨_, _, _, rfl, rfl, rfl, nofun, eq_ok_of_toOption (by decide +kernel)⟩
      cases accepted.symm.trans same
      exact facts
    obtain ⟨-, -, isRead⟩ := readClass?_single accepted isLocal isRemote areNames checked
    exact ⟨binding, after, logs, _, _, accepted, isRead, isEncoding, fails _ _ _ lost⟩

end Contract

end ContractBindings
