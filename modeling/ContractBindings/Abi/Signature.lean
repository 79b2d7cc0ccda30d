import ContractBindings.Abi.Failure
import ContractBindings.Abi.Parameter
import ContractBindings.Hash.Keccak
import ContractBindings.Text.Hex

namespace ContractBindings

/-!
# Signatures

The signature of a function or event is its name followed by the types of its
parameters in parentheses.  A tuple is written as the parenthesized list of the
types of its components, with its array suffixes behind.  Calls begin with the
first four bytes of the hash of a signature, logs with the whole hash.
-/

namespace Parameter

mutual

/-- The type of a parameter as it stands in a signature. -/
def canonicalType (place : Option Place) (marks : Entries) :
    Parameter → Except Rejection Text
  | ⟨name, type, components, internalType⟩ =>
      match Text.dropStart? type "tuple" with
      | none => .ok type
      | some suffix => do
          let types ← canonicalComponents place components
          match types with
          | [] =>
              .error ⟨.malformedTuple type, place,
                describeWith ⟨name, type, components, internalType⟩ marks⟩
          | types => .ok ("(" ++ Text.join "," types ++ ")" ++ suffix)

/-- The types of components, of which there may be none. -/
def canonicalComponents (place : Option Place) :
    Option (List Parameter) → Except Rejection (List Text)
  | none => .ok []
  | some components => canonicalTypes place components

/-- The types of plain parameters. -/
def canonicalTypes (place : Option Place) : List Parameter → Except Rejection (List Text)
  | [] => .ok []
  | parameter :: rest => do
      let type ← canonicalType place [] parameter
      let types ← canonicalTypes place rest
      return type :: types

end

end Parameter

/-- A name with the types of its parameters. -/
def signatureOf (name : Text) (types : List Text) : Text :=
  name ++ "(" ++ Text.join "," types ++ ")"

/-- The signature of a function. -/
def functionSignature (place : Option Place) (name : Text) (parameters : List Parameter) :
    Except Rejection Text := do
  return signatureOf name (← Parameter.canonicalTypes place parameters)

/-- The signature of an event. -/
def eventSignature (place : Option Place) (name : Text) (parameters : List EventParameter) :
    Except Rejection Text := do
  let types ← parameters.mapM fun p => p.toParameter.canonicalType place p.marks
  return signatureOf name types

/-- The hash of a text, which must be one that UTF-8 can write. -/
def hashText (t : Text) : Except Fault Octets :=
  if Text.isScalar t then .ok (Keccak.digest (Text.utf8 t)) else .error .unencodable

/-- The four bytes that a call of the function with this signature begins with. -/
def selector (signature : Text) : Except Fault Octets :=
  (hashText signature).map (·.take 4)

/-- The hash that a log of the event with this signature begins with. -/
def topicHash (signature : Text) : Except Fault Octets :=
  hashText signature

end ContractBindings
