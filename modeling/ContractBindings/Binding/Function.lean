import ContractBindings.Abi.Entry
import ContractBindings.Abi.Signature
import ContractBindings.Binding.Names
import ContractBindings.Log
import ContractBindings.Typing.Mapping

namespace ContractBindings

/-!
# Bindings of functions

A function is bound by a local method, which executes it as a call, and unless
it is constant by a remote one, which submits a transaction.  The local method
is named like the remote one with a suffix behind it.  The functions of one
contract are bound one after another, so that no two methods share a name.
-/

/-- How the decoded results of a call become the result of a method. -/
inductive ReturnShape where
  | void
  | single
  | record
  deriving DecidableEq, Repr

namespace ReturnShape

/-- The shape for a number of results. -/
def ofCount : Nat → ReturnShape
  | 0 => .void
  | 1 => .single
  | _ => .record

end ReturnShape

/-- A parameter of a generated method. -/
structure MethodParameter where
  name : Text
  expression : TypeExpression
  abiType : Text

/-- One of the two methods of a function. -/
inductive MethodKind where
  | localCall
  | remoteCall
  deriving DecidableEq, Repr

/-- The methods generated for a function. -/
structure FunctionBinding where
  abiName : Text
  signature : Text
  selector : Octets
  parameters : List MethodParameter
  returnType : TypeExpression
  returnShape : ReturnShape
  inputs : List Parameter
  outputs : List Parameter
  localMethod : Text
  /-- Constant functions have no remote method. -/
  remoteMethod : Option Text
  payable : Bool

namespace FunctionBinding

/-- The name of a method of a function, if the function has it. -/
def methodName? (binding : FunctionBinding) : MethodKind → Option Text
  | .localCall => some binding.localMethod
  | .remoteCall => binding.remoteMethod

/-- The records that the signatures of the methods refer to. -/
def records (binding : FunctionBinding) : List RecordFields :=
  binding.parameters.flatMap (·.expression.records) ++ binding.returnType.records

end FunctionBinding

/-- What the functions of a contract are bound with. -/
structure FunctionBinder where
  contract : Text
  suffix : Text
  /-- The names of the methods bound so far. -/
  taken : List Text

namespace FunctionBinder

/-- The binder of a contract before its first function. -/
def start (contract suffix : Text) : Except BindingFailure FunctionBinder :=
  if suffix.isEmpty then .error .emptySuffix else .ok ⟨contract, suffix, []⟩

/-- What is known of a binding before its methods are named. -/
structure Outline where
  signature : Text
  parameters : List MethodParameter
  returnType : TypeExpression

/-- Everything about a binding but the names of its methods. -/
def outline (place : Place) (function : FunctionEntry) : Except BindingFailure Outline := do
  let signature ← (functionSignature (some place) function.name function.inputs).mapError
    .rejected
  let names ← match Names.parameterNames? (function.inputs.map (·.name)) with
    | some names => .ok names
    | none => .error .noFreeName
  let expressions ← function.inputs.mapM (TypeExpression.ofParameter (some place) [])
  let parameters := (names.zip (expressions.zip function.inputs)).map
    fun (name, expression, parameter) => ⟨name, expression, parameter.type⟩
  let returnType ← TypeExpression.ofResults (some place) function.outputs
  return ⟨signature, parameters, returnType⟩

/-- Tells that a function is bound under another name. -/
def renamed (binder : FunctionBinder) (name method : Text) : List LogRecord :=
  if method = name then []
  else [⟨.debug, "Function " ++ binder.contract ++ "." ++ name ++ " bound as " ++ method⟩]

/-- Binds a function.  The names of its methods are taken from then on, also
when the signature turns out to have no hash. -/
def bind (binder : FunctionBinder) (function : FunctionEntry) :
    Except BindingFailure FunctionBinding × FunctionBinder × List LogRecord :=
  match outline ⟨binder.contract, function.name⟩ function with
  | .error failure => (.error failure, binder, [])
  | .ok outline =>
      match Names.methodName? binder.suffix binder.taken function.name with
      | none => (.error .noFreeName, binder, [])
      | some method =>
          let after := { binder with taken := method :: (method ++ binder.suffix) :: binder.taken }
          let logs := binder.renamed function.name method
          match ContractBindings.selector outline.signature with
          | .error fault => (.error (.fault fault), after, logs)
          | .ok selector =>
              let binding : FunctionBinding :=
                { abiName := function.name
                  signature := outline.signature
                  selector
                  parameters := outline.parameters
                  returnType := outline.returnType
                  returnShape := .ofCount function.outputs.length
                  inputs := function.inputs
                  outputs := function.outputs
                  localMethod := method ++ binder.suffix
                  remoteMethod := if function.constant then none else some method
                  payable := function.payable }
              (.ok binding, after, logs)

end FunctionBinder

end ContractBindings
