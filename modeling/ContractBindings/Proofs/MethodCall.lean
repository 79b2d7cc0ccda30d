import ContractBindings.Call.Contract
import ContractBindings.Proofs.BindingSteps
import ContractBindings.Proofs.DeclaredParameters
import ContractBindings.Proofs.ParameterRoundTrip

namespace ContractBindings

/-!
# Calls of bound methods

A method of a bound function hands on one transaction, with the selector of the
canonical signature and the arguments encoded under the types in it, or nothing
at all if the arguments are refused.  The answer to a local call comes back in
the shape of the declared results.
-/

namespace Names

/-- There are as many names of parameters as parameters. -/
theorem length_parameterNamesFrom?
    {place : Nat}
    {taken names own : List Text}
    (found : parameterNamesFrom? place taken names = some own) :
    own.length = names.length := by
  induction names generalizing place taken own with
  | nil =>
      cases found
      rfl
  | cons name names inductionHypothesis =>
      simp only [parameterNamesFrom?, Option.bind_eq_bind, Option.bind_eq_some_iff,
        Option.pure_def, Option.some.injEq] at found
      obtain ⟨first, -, others, ofOthers, rfl⟩ := found
      rw [List.length_cons, List.length_cons, inductionHypothesis ofOthers]

end Names

namespace TypeExpression

/-- Several results are accepted only if all of them have names. -/
theorem named_of_ofResults
    {place : Option Place}
    {results : List Parameter}
    {type : TypeExpression}
    (accepted : ofResults place results = .ok type)
    (several : 2 ≤ results.length) :
    ∀ result ∈ results, result.name.isEmpty = false := by
  match results, accepted with
  | first :: second :: others, accepted =>
      rw [ofResults] at accepted
      · split at accepted
        · cases accepted
        · rename_i noneUnnamed
          simpa using noneUnnamed
      all_goals simp

end TypeExpression

namespace FunctionBinder

/-- What is known of the binding of a function that is accepted. -/
structure Bound (binder : FunctionBinder) (function : FunctionEntry)
    (binding : FunctionBinding) (types : List Text) : Prop where
  canonical :
    Parameter.canonicalTypes (some ⟨binder.contract, function.name⟩) function.inputs = .ok types
  selector :
    binding.selector = (Keccak.digest (Text.utf8 (signatureOf function.name types))).take 4
  inputs : binding.inputs = function.inputs
  outputs : binding.outputs = function.outputs
  payable : binding.payable = function.payable
  asMany : binding.parameters.length = function.inputs.length
  annotated :
    ∀ parameter ∈ binding.parameters, ∃ input ∈ function.inputs,
      TypeExpression.ofParameter (some ⟨binder.contract, function.name⟩) [] input =
        .ok parameter.expression
  returns :
    TypeExpression.ofResults (some ⟨binder.contract, function.name⟩) function.outputs =
      .ok binding.returnType
  shape : binding.returnShape = .ofCount function.outputs.length
  named : 2 ≤ function.outputs.length →
    ∀ result ∈ function.outputs, result.name.isEmpty = false

/-- A binding has the selector of the canonical signature and what the function declares. -/
theorem bound_of_bind
    {binder after : FunctionBinder}
    {function : FunctionEntry}
    {binding : FunctionBinding}
    {logs : List LogRecord}
    (accepted : binder.bind function = (.ok binding, after, logs)) :
    ∃ types, Bound binder function binding types := by
  have attempt := attempt_bind binder function
  rw [accepted] at attempt
  cases attempt with
  | bound isOutline found hashed =>
      obtain ⟨types, names, expressions, outlines⟩ := outlines_of_outline isOutline
      have namesLength := Names.length_parameterNamesFrom? outlines.named
      have expressionsLength := length_of_mapM outlines.typed
      rw [List.length_map] at namesLength
      refine ⟨types, outlines.canonical, ?_, rfl, rfl, rfl, ?_, fun parameter member => ?_,
        outlines.returns, rfl, TypeExpression.named_of_ofResults outlines.returns⟩
      · rw [outlines.signature, ContractBindings.selector, hashText] at hashed
        simp only [map_eq_ok_iff] at hashed
        obtain ⟨digest, isDigest, rfl⟩ := hashed
        split at isDigest
        · cases isDigest
          rfl
        · cases isDigest
      · simp [bindingOf, outlines.parameters, namesLength, expressionsLength]
      · rw [bindingOf, outlines.parameters] at member
        obtain ⟨⟨name, expression, input⟩, isZipped, rfl⟩ := List.mem_map.mp member
        exact exists_of_forall₂ (mapM_eq_ok_iff.mp outlines.typed)
          (List.of_mem_zip (List.of_mem_zip isZipped).2).1

end FunctionBinder

namespace MethodKind

/-- How a method hands a transaction on: a local one by a call, a remote one by a submission. -/
def handsOn : MethodKind → Transaction → Sent
  | .localCall, transaction => .call transaction
  | .remoteCall, transaction => .submission transaction

end MethodKind

namespace ReturnShape

/-- Values are stored one after another under the keys of results. -/
theorem shape_record
    {outputs : List Description}
    {keys : List Text}
    (hasKeys : Description.keys outputs = .ok (keys.map .text))
    (values : List Value) :
    record.shape outputs values =
      .ok (.dict (Entries.ofList ((keys.map Key.text).zip values))) := by
  rw [shape, hasKeys]
  refine bind_eq_ok_iff.mpr ⟨_, rfl, bind_eq_ok_iff.mpr
    ⟨(keys.map Key.text).zip values, ?_, rfl⟩⟩
  rw [List.zip_map_left, List.zip_map_left, List.mapM_map]
  exact mapM_eq_ok fun pair _ => rfl

end ReturnShape

namespace Contract

/-- The named arguments of a method, which are its payment if that is given. -/
def attachedValue : Option Value → Keyed Value
  | none => []
  | some payment => [("attached_value", payment)]

/-- The payment of a transaction, which is the given one unless that is null. -/
def carried (payment : Option Value) : Option Value :=
  match payment with
  | some .null => none
  | payment => payment

/-- Arguments that are given by place are those of the method. -/
theorem call_positional
    {contract : Contract}
    {name : Text}
    {method : Method}
    (isMethod : contract.type.method? name = some method)
    {positional : List Value}
    (asMany : positional.length = method.parameters.length)
    {payment : Option Value}
    (payable : payment.isSome = true → method.payable = true)
    (answer receipt : Value) :
    contract.call name positional (attachedValue payment) answer receipt =
      contract.run method ⟨positional, payment.getD .null⟩ answer receipt := by
  have matched :
      contract.matchArguments method positional (attachedValue payment) =
        some ⟨positional, payment.getD .null⟩ := by
    have noneLeft :
        (method.parameters.map (Names.memberName contract.type.name)).drop
            method.parameters.length = [] := by
      simp
    rw [matchArguments]
    simp only [noneLeft, List.length_map, asMany, Nat.lt_irrefl, ↓reduceIte, takeNamed,
      List.mapM_nil]
    cases payment with
    | none =>
        simp [attachedValue, Keyed.get?]
    | some payment =>
        have takesPayment : method.payable = true := payable rfl
        simp [attachedValue, takesPayment, Keyed.get?]
  rw [call, isMethod]
  simp only [matched]

/-- A transaction carries the encoded arguments behind the selector. -/
theorem transaction_eq_ok
    (contract : Contract)
    {method : Method}
    {values : List Value}
    {data : Octets}
    (encoded : Codec.encodeParameters method.inputs values = .ok data)
    (payment : Option Value) :
    contract.transaction method ⟨values, payment.getD .null⟩ =
      .ok ⟨contract.address, method.selector ++ data, carried payment⟩ := by
  rw [transaction]
  simp only [encoded, bind, Except.bind]
  cases payment with
  | none =>
      rfl
  | some payment =>
      cases payment <;> rfl

/-- Arguments that are refused make no transaction. -/
theorem transaction_eq_error
    {contract : Contract}
    {method : Method}
    {arguments : Arguments}
    {failure : CodecFailure}
    (refused : Codec.encodeParameters method.inputs arguments.values = .error failure) :
    contract.transaction method arguments = .error failure := by
  rw [transaction, refused]
  rfl

/-- The value of a local method whose call answers with the encoding of some results:
nothing, the only result or a mapping under the names of the results. -/
def returned (outputs : List Parameter) (results : List Value) : Value :=
  match results with
  | [] => .null
  | [result] => result
  | results => .dict ((outputs.map fun output => Key.text output.name).zip results)

/-- Results take the shape that belongs to their number. -/
theorem shape_eq_returned
    {outputs : List Parameter}
    (named : 2 ≤ outputs.length → ∀ output ∈ outputs, output.name.isEmpty = false)
    (distinct : (outputs.map (·.name)).Nodup)
    {results : List Value}
    (asMany : results.length = outputs.length) :
    (ReturnShape.ofCount outputs.length).shape (Parameter.descriptions outputs) results =
      .ok (returned outputs results) := by
  rcases outputs with _ | ⟨first, _ | ⟨second, others⟩⟩
  · obtain rfl := List.length_eq_zero_iff.mp asMany
    rfl
  · obtain ⟨result, rfl⟩ := List.length_eq_one_iff.mp asMany
    rfl
  · rcases results with _ | ⟨v, _ | ⟨w, rest⟩⟩
    · cases asMany
    · cases asMany
    · have names := Parameter.keys_of_named (named (by simp))
      have isRecord : ReturnShape.ofCount (first :: second :: others).length = .record := by
        rfl
      rw [isRecord, ReturnShape.shape_record (Parameter.keys_descriptions _), names,
        Entries.ofList_zip distinct, List.map_map]
      rfl

/-- A local method makes the declared results of an answer that encodes them. -/
theorem localResult_eq_returned
    {outputs : List Parameter}
    (named : 2 ≤ outputs.length → ∀ output ∈ outputs, output.name.isEmpty = false)
    {declarations : Declarations}
    {results : List Value}
    (typed : DeclaredType.TypedFor outputs declarations results)
    (distinct : DeclaredType.allDistinctKeys declarations = true)
    (namesDistinct : (outputs.map (·.name)).Nodup)
    {data : Octets}
    (encoded : DeclaredType.encoding? declarations results = some data)
    (holdable : data.length < twoTo 63) :
    localResult (Parameter.descriptions outputs) (.ofCount outputs.length) (.bytes data) =
      .ok (.value (returned outputs (DeclaredType.allOrdered declarations results))) := by
  obtain ⟨declared, valid, readable, hold⟩ := typed
  have decoded := DeclaredType.decodeParameters_eq (DeclaredType.describe_of_declare declared)
    valid distinct readable hold encoded holdable
  have asMany : (DeclaredType.allOrdered declarations results).length = outputs.length := by
    rw [DeclaredType.length_allOrdered hold, DeclaredType.length_of_declare declared]
  have shaped := shape_eq_returned named namesDistinct asMany
  rw [localResult]
  · simp only [Octets.ofValue, bind, Except.bind, mapError_ok, decoded, shaped]
    rfl
  · simp

/-- A local method has no result if the answer is not decoded. -/
theorem localResult_of_undecoded
    {outputs : List Description}
    {shape : ReturnShape}
    {data : Octets}
    {failure : CodecFailure}
    (undecoded : Codec.decodeParameters outputs data = .error failure) :
    localResult outputs shape (.bytes data) = .error (.codec failure) := by
  rw [localResult]
  · simp only [Octets.ofValue, bind, Except.bind, mapError_ok, mapError_error, undecoded]
  · simp

/-- Arguments by place are as many as the parameters of the method of an accepted function. -/
theorem length_parameters
    {binder : FunctionBinder}
    {function : FunctionEntry}
    {binding : FunctionBinding}
    {types : List Text}
    (bound : FunctionBinder.Bound binder function binding types)
    {positional : List Value}
    (asMany : positional.length = function.inputs.length)
    (kind : MethodKind)
    (own : Text) :
    positional.length = (binding.method kind own).parameters.length := by
  have areParameters : (binding.method kind own).parameters = binding.parameters.map (·.name) :=
    rfl
  rw [areParameters, List.length_map, bound.asMany, asMany]

/-- A generated method hands on nothing if the codec refuses the arguments. -/
theorem call_of_refused
    {binder : FunctionBinder}
    {function : FunctionEntry}
    {binding : FunctionBinding}
    {types : List Text}
    (bound : FunctionBinder.Bound binder function binding types)
    {contract : Contract}
    {name own : Text}
    {kind : MethodKind}
    (isMethod : contract.type.method? name = some (binding.method kind own))
    {positional : List Value}
    (asMany : positional.length = function.inputs.length)
    {payment : Option Value}
    (payable : payment.isSome = true → function.payable = true)
    {failure : CodecFailure}
    (refused :
      Codec.encodeParameters (Parameter.descriptions function.inputs) positional =
        .error failure)
    (answer receipt : Value) :
    contract.call name positional (attachedValue payment) answer receipt =
      ⟨[], .error (.codec failure)⟩ := by
  rw [← bound.inputs] at refused
  rw [← bound.payable] at payable
  rw [call_positional isMethod (length_parameters bound asMany kind own) payable, run,
    transaction_eq_error refused]

/-- The result of a method of a function after its transaction was handed on. -/
def resultAfter (contract : Contract) (binding : FunctionBinding) (answer receipt : Value) :
    MethodKind → Except CallFailure CallResult
  | .localCall => localResult (Parameter.descriptions binding.outputs) binding.returnShape answer
  | .remoteCall => contract.remoteResult binding.abiName receipt

/-- A generated method hands on one transaction with the encoded arguments. -/
theorem call_of_encoded
    {binder : FunctionBinder}
    {function : FunctionEntry}
    {binding : FunctionBinding}
    {types : List Text}
    (bound : FunctionBinder.Bound binder function binding types)
    {contract : Contract}
    {name own : Text}
    {kind : MethodKind}
    (isMethod : contract.type.method? name = some (binding.method kind own))
    {positional : List Value}
    (asMany : positional.length = function.inputs.length)
    {payment : Option Value}
    (payable : payment.isSome = true → function.payable = true)
    {data : Octets}
    (encoded :
      Codec.encodeParameters (Parameter.descriptions function.inputs) positional = .ok data)
    (answer receipt : Value) :
    contract.call name positional (attachedValue payment) answer receipt =
      ⟨[kind.handsOn
          ⟨contract.address,
            (Keccak.digest (Text.utf8 (signatureOf function.name types))).take 4 ++ data,
            carried payment⟩],
        contract.resultAfter binding answer receipt kind⟩ := by
  rw [← bound.inputs] at encoded
  rw [← bound.payable] at payable
  have isTransaction :
      contract.transaction (binding.method kind own) ⟨positional, payment.getD .null⟩ =
        .ok ⟨contract.address, binding.selector ++ data, carried payment⟩ :=
    transaction_eq_ok contract encoded payment
  rw [bound.selector] at isTransaction
  rw [call_positional isMethod (length_parameters bound asMany kind own) payable, run,
    isTransaction]
  cases kind <;> rfl

end Contract

/-- A contract with a single function. -/
def ContractBinding.single (binding : FunctionBinding) : ContractBinding :=
  ⟨[], "C", "C", [binding]⟩

namespace Contract

/-- A contract with a single function, at an address and without events. -/
def withFunction (binding : FunctionBinding) : Contract :=
  ⟨(ContractBinding.single binding).toClass, ⟨[], []⟩, List.replicate 20 1⟩

/-- The local method of a single function is found under its name. -/
theorem method?_withFunction
    {binding : FunctionBinding}
    (isLocal : binding.localMethod = "f_")
    (isRemote : binding.remoteMethod = some (Text.ofString "f")) :
    (withFunction binding).type.method? "f_" = some (binding.method .localCall "f_") := by
  simp only [withFunction, ContractBinding.single, ContractBinding.toClass,
    ContractClass.method?, FunctionBinding.methods, List.flatMap_cons, List.flatMap_nil, isLocal,
    isRemote]
  rfl

/-- A function without parameters whose only result is a byte string. -/
def bytesFunction : FunctionEntry where
  name := "f"
  inputs := []
  outputs := [⟨[], "bytes", none, none⟩]
  constant := false
  payable := false
  stateMutability := none

theorem payable_bytesFunction :
    (none : Option Value).isSome = true → bytesFunction.payable = true :=
  nofun

/-- The local method of the function fails as the decoding of the answer does. -/
theorem result_bytesFunction :
    ∃ binding after logs,
      FunctionBinder.bind ⟨"C", "_", []⟩ bytesFunction = (.ok binding, after, logs) ∧
        (withFunction binding).type.method? "f_" = some (binding.method .localCall "f_") ∧
          ∀ data receipt failure,
            Codec.decodeParameters (Parameter.descriptions bytesFunction.outputs) data =
                .error failure →
              ((withFunction binding).call "f_" [] (attachedValue none) (.bytes data)
                  receipt).result =
                .error (.codec failure) := by
  obtain ⟨binding, after, logs, accepted, isLocal, isRemote, sameOutputs⟩ :
      ∃ binding after logs,
        FunctionBinder.bind ⟨"C", "_", []⟩ bytesFunction = (.ok binding, after, logs) ∧
          binding.localMethod = "f_" ∧ binding.remoteMethod = some (Text.ofString "f") ∧
            binding.outputs = bytesFunction.outputs :=
    ⟨_, _, _, rfl, rfl, rfl, rfl⟩
  have isMethod := method?_withFunction isLocal isRemote
  obtain ⟨types, bound⟩ := FunctionBinder.bound_of_bind accepted
  have encoded :
      Codec.encodeParameters (Parameter.descriptions bytesFunction.inputs) [] = .ok [] := by
    rfl
  refine ⟨binding, after, logs, accepted, isMethod, fun data receipt failure undecoded => ?_⟩
  rw [call_of_encoded bound isMethod rfl payable_bytesFunction encoded]
  rw [← sameOutputs] at undecoded
  exact localResult_of_undecoded undecoded

end Contract

end ContractBindings
