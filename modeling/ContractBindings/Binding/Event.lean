import ContractBindings.Abi.Entry
import ContractBindings.Abi.Signature
import ContractBindings.Typing.Mapping

namespace ContractBindings

/-!
# Bindings of events

A log of an event begins with the hash of the signature of the event.  Indexed
parameters follow as topics of 32 bytes each, of which a type without a fixed
size leaves no more than its hash.
-/

/-- What is needed to decode the logs of an event. -/
structure EventDescription where
  name : Text
  signature : Text
  /-- The hash of the signature in hexadecimal digits. -/
  signatureHash : Text
  /-- The descriptions of the parameters. -/
  parameters : List Value

/-- The class of decoded events generated for an event. -/
structure EventType where
  className : Text
  eventName : Text
  signatureHash : Text
  parameters : RecordFields

namespace EventType

/-- The records that the class refers to. -/
def records (type : EventType) : List RecordFields :=
  (TypeExpression.record type.parameters).records

end EventType

/-- Types of which an indexed parameter leaves only a hash.  Arrays of a fixed
size are not among them. -/
def isHashedWhenIndexed (type : Text) : Bool :=
  type = "string" || type = "bytes" || Text.startsWith type "tuple" || Text.endsWith type "[]"

namespace EventEntry

/-- The place of an event of a contract. -/
def place (event : EventEntry) (contract : Text) : Place :=
  ⟨contract, event.name⟩

/-- The signature of an event with its hash in hexadecimal digits. -/
def hashedSignature (event : EventEntry) (contract : Text) :
    Except BindingFailure (Text × Text) := do
  let signature ← (eventSignature (event.place contract) event.name event.inputs).mapError
    .rejected
  let hash ← (topicHash signature).mapError .fault
  return (signature, Octets.toHex hash)

/-- Describes an event to the decoder of logs. -/
def describe (event : EventEntry) (contract : Text) :
    Except BindingFailure EventDescription := do
  let (signature, signatureHash) ← event.hashedSignature contract
  return ⟨event.name, signature, signatureHash, event.inputs.map (·.describe)⟩

/-- The type of the value decoded for a parameter. -/
def parameterType (place : Place) (parameter : EventParameter) :
    Except BindingFailure TypeExpression :=
  if parameter.indexed && isHashedWhenIndexed parameter.type then .ok (.named "Bytes32")
  else TypeExpression.ofParameter (some place) parameter.marks parameter.toParameter

/-- The class of the decoded events of an event. -/
def nominalType (event : EventEntry) (contract className : Text) :
    Except BindingFailure EventType := do
  let types ← event.inputs.mapM (parameterType (event.place contract))
  let (_, signatureHash) ← event.hashedSignature contract
  let keys := Parameter.keys (event.inputs.map (·.toParameter))
  return ⟨className, event.name, signatureHash, keys.zip types⟩

end EventEntry

end ContractBindings
