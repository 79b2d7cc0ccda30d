import ContractBindings.Binding.Assembly
import ContractBindings.Call.Event

namespace ContractBindings

/-!
# Calling contracts

The class of a contract has the methods of its functions.  A method encodes its
arguments behind the selector of its function and hands the transaction on.  A
local method decodes the result of the call, a remote one the events in the
receipt.  What was handed on is part of the outcome, also when the rest fails.
-/

/-- What a method hands on. -/
structure Transaction where
  receiver : Octets
  data : Octets
  /-- The payment that goes with it. -/
  value : Option Value

namespace Transaction

/-- A transaction as a mapping. -/
def toValue (transaction : Transaction) : Value :=
  let payment := match transaction.value with
    | some v => [(Key.text "value", v)]
    | none => []
  .dict ([(.text "to", .bytes transaction.receiver),
    (.text "data", .bytes transaction.data)] ++ payment)

end Transaction

/-- A transaction that was handed on, to be executed as a call or submitted. -/
inductive Sent where
  | call (transaction : Transaction)
  | submission (transaction : Transaction)

/-- Why a method has no result. -/
inductive CallFailure where
  | codec (failure : CodecFailure)
  | event (failure : EventFailure)
  /-- A call was answered by nothing. -/
  | emptyResult
  | transactionFailed (function : Text) (receipt : Value)
  | fault (fault : Fault)

namespace CallFailure

/-- The message for a call that was answered by nothing. -/
def emptyResultMessage : Text :=
  "Call returned None, but expected a result."

/-- The message for a transaction that failed. -/
def transactionFailedMessage (function : Text) (receipt : Value) : Text :=
  "Remote call of " ++ function ++ " failed: " ++ receipt.literal

end CallFailure

/-- The result of a method. -/
inductive CallResult where
  | value (v : Value)
  | events (events : List DecodedEvent)

/-- What came of calling a method. -/
structure CallOutcome where
  sent : List Sent
  result : Except CallFailure CallResult

namespace ReturnShape

/-- The result of a call made of the decoded values. -/
def shape (outputs : List Description) (values : List Value) : ReturnShape → Except Fault Value
  | .void => .ok .null
  | .single =>
      match values with
      | [] => .error .noElement
      | v :: _ => .ok v
  | .record => do
      let keys ← Description.keys outputs
      let entries ← (keys.zip values).mapM fun (key, v) =>
        match key.toKey? with
        | some key => .ok (key, v)
        | none => .error .wrongKind
      return .dict (Entries.ofList entries)

end ReturnShape

/-- What a method does behind its arguments. -/
inductive MethodEnding where
  /-- Makes a call and shapes the results that are decoded from the answer. -/
  | localCall (outputs : List Description) (shape : ReturnShape)
  /-- Submits a transaction and looks for events in the receipt. -/
  | remoteCall (function : Text)

/-- A method of the class of a contract. -/
structure Method where
  name : Text
  /-- The names of the parameters, whose arguments are encoded in this order. -/
  parameters : List Text
  /-- Whether a payment is taken, by name only, and handed on. -/
  payable : Bool
  selector : Octets
  inputs : List Description
  ending : MethodEnding

namespace FunctionBinding

/-- A method of a function under a name. -/
def method (binding : FunctionBinding) (kind : MethodKind) (name : Text) : Method where
  name := name
  parameters := binding.parameters.map (·.name)
  payable := binding.payable
  selector := binding.selector
  inputs := Parameter.descriptions binding.inputs
  ending :=
    match kind with
    | .localCall => .localCall (Parameter.descriptions binding.outputs) binding.returnShape
    | .remoteCall => .remoteCall binding.abiName

/-- The methods of a function, the local one first. -/
def methods (binding : FunctionBinding) : List Method :=
  binding.method .localCall binding.localMethod ::
    binding.remoteMethod.toList.map (binding.method .remoteCall)

end FunctionBinding

/-- The class of a contract, with its methods in the order of their definitions. -/
structure ContractClass where
  name : Text
  methods : List Method

namespace ContractClass

/-- The method that a name leads to, which is the last one that is kept under it. -/
def method? (type : ContractClass) (name : Text) : Option Method :=
  type.methods.reverse.find? fun method => Names.memberName type.name method.name = name

end ContractClass

namespace ContractBinding

/-- The class of a contract. -/
def toClass (contract : ContractBinding) : ContractClass :=
  ⟨contract.className, contract.functions.flatMap (·.methods)⟩

end ContractBinding

/-- A contract at an address, with the events that its logs are decoded by. -/
structure Contract where
  type : ContractClass
  registry : EventRegistry
  address : Octets

namespace Contract

/-- The contract as a literal. -/
def literal (contract : Contract) : Text :=
  contract.type.name ++ "(0x" ++ Octets.toHex contract.address ++ ")"

/-- The arguments of a method in the order of its parameters, and the payment. -/
structure Arguments where
  values : List Value
  payment : Value

/-- Takes the arguments for the parameters that are left from the named ones. -/
def takeNamed (names : List Text) (named : Keyed Value) : Option (List Value) :=
  names.mapM fun name => named.get? name

/-- Matches arguments with parameters.  Each parameter takes one argument, by
place or by name, and the payment is given by name only. -/
def matchArguments (contract : Contract) (method : Method) (positional : List Value)
    (named : Keyed Value) : Option Arguments := do
  let names := method.parameters.map (Names.memberName contract.type.name)
  if names.length < positional.length then none
  else
    let left := names.drop positional.length
    let known (name : Text) : Bool :=
      left.contains name || (method.payable && name = "attached_value")
    if named.all (known ·.1) then
      let values ← takeNamed left named
      let payment := if method.payable then (named.get? "attached_value").getD .null else .null
      return ⟨positional ++ values, payment⟩
    else none

/-- The transaction of a method. -/
def transaction (contract : Contract) (method : Method) (arguments : Arguments) :
    Except CodecFailure Transaction := do
  let encoded ← Codec.encodeParameters method.inputs arguments.values
  let payment := match arguments.payment with
    | .null => none
    | v => some v
  return ⟨contract.address, method.selector ++ encoded, payment⟩

/-- The result that a local method makes of the answer to its call. -/
def localResult (outputs : List Description) (shape : ReturnShape) (answer : Value) :
    Except CallFailure CallResult := do
  match answer with
  | .null => .error .emptyResult
  | answer =>
      let data ← (Octets.ofValue answer).mapError .fault
      let values ← (Codec.decodeParameters outputs data).mapError .codec
      return .value (← (shape.shape outputs values).mapError .fault)

/-- The events that a remote method finds in the receipt of its transaction. -/
def remoteResult (contract : Contract) (function : Text) (receipt : Value) :
    Except CallFailure CallResult := do
  let success ← (EventRegistry.logEntry receipt "success").mapError .fault
  if success.isTrue then
    let logs ← (do Layout.members? (← EventRegistry.logEntry receipt "events")).mapError .fault
    return .events (← (contract.registry.decodeEvents logs).1.mapError .event)
  else .error (.transactionFailed function receipt)

/-- Runs a method.  A call is answered by `answer`, a submitted transaction by
`receipt`. -/
def run (contract : Contract) (method : Method) (arguments : Arguments)
    (answer receipt : Value) : CallOutcome :=
  match contract.transaction method arguments with
  | .error failure => ⟨[], .error (.codec failure)⟩
  | .ok transaction =>
      match method.ending with
      | .localCall outputs shape => ⟨[.call transaction], localResult outputs shape answer⟩
      | .remoteCall function =>
          ⟨[.submission transaction], contract.remoteResult function receipt⟩

/-- The members that the base class of contracts has from those above it: from the
class of all objects and from that of generic classes. -/
def inheritedMembers : List Text :=
  (["__annotations__", "__class__", "__class_getitem__", "__delattr__", "__dict__", "__dir__",
    "__doc__", "__eq__", "__format__", "__ge__", "__getattribute__", "__getstate__", "__gt__",
    "__hash__", "__init__", "__init_subclass__", "__le__", "__lt__", "__module__", "__ne__",
    "__new__", "__orig_bases__", "__parameters__", "__reduce__", "__reduce_ex__", "__repr__",
    "__setattr__", "__sizeof__", "__slots__", "__str__", "__subclasshook__", "__weakref__",
    "_is_protocol"] : List String).map Text.ofString

/-- The members of the base class of contracts. -/
def members : List Text :=
  Names.contractMembers ++ inheritedMembers

/-- Calls the method of a name.  The members of the base class are no methods to be
called. -/
def call (contract : Contract) (name : Text) (positional : List Value) (named : Keyed Value)
    (answer receipt : Value) : CallOutcome :=
  match contract.type.method? name with
  | none => ⟨[], .error (.fault (if members.contains name then .wrongKind else .noMember))⟩
  | some method =>
      match contract.matchArguments method positional named with
      | none => ⟨[], .error (.fault .wrongKind)⟩
      | some arguments => contract.run method arguments answer receipt

end Contract

namespace Assembly

/-- The events of an assembly as a registry. -/
def registry (assembly : Assembly) : EventRegistry :=
  ⟨assembly.eventDescriptions, assembly.eventClasses⟩

/-- The base class of all contracts, which has no methods of functions. -/
def baseContract : ContractClass :=
  ⟨"Contract", []⟩

/-- The names kept free in a module without a meaning of their own there. -/
def meaninglessNames : List Text :=
  ["Any", "bytes", "int", "str", "bool"]

/-- Whether a name of the module stands for something that a contract cannot be
made of. -/
def isForeign (assembly : Assembly) (name : Text) : Bool :=
  let isEventAlias := name = "DecodedEvent" || (name = "Event" && assembly.eventTypes.length < 2)
  (Names.moduleNames.contains name && ! meaninglessNames.contains name && ! isEventAlias) ||
    assembly.records.any fun record => record.name = name

/-- The contract of a class at an address, of the last class that has the name. -/
def contract (assembly : Assembly) (className : Text) (address : Octets) :
    Except Fault Contract :=
  let classes := baseContract :: assembly.contracts.map (·.toClass)
  match classes.reverse.find? (·.name = className) with
  | some type => .ok ⟨type, assembly.registry, address⟩
  | none => .error (if assembly.isForeign className then .wrongKind else .noMember)

end Assembly

end ContractBindings
