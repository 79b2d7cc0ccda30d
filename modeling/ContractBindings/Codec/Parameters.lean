import ContractBindings.Codec.Decoding
import ContractBindings.Codec.Encoding
import ContractBindings.Codec.Layout
import ContractBindings.Codec.TypeReader

namespace ContractBindings

/-!
# Encoding and decoding parameters

The parameters of a call, its results and the parameters of an event are
encoded as one tuple under the types in their descriptions.
-/

/-- Why parameters were not encoded or decoded. -/
inductive CodecFailure where
  /-- The values do not belong to the types. -/
  | encode (values : List Value) (types : List Value)
  /-- The data is no encoding under the types. -/
  | decode (types : List Value) (data : Octets)
  | fault (fault : Fault)

namespace CodecFailure

/-- The types in descriptions as a literal. -/
def typeList (types : List Value) : Text :=
  (Value.list types).literal

/-- The message for values and the types they do not belong to. -/
def encodeMessage (values types : List Value) : Text :=
  "Failed to encode " ++ (Value.list values).literal ++ " as " ++ typeList types

/-- The message for data and the types it is no encoding under. -/
def decodeMessage (types : List Value) (data : Octets) : Text :=
  "Failed to decode " ++ typeList types ++ " from 0x" ++ Octets.toHex data

end CodecFailure

namespace Codec

/-- The failure to encode values, if all descriptions have a type to name. -/
def encodeFailure (descriptions : List Description) (values : List Value) : CodecFailure :=
  match descriptions.mapM Description.type with
  | .ok types => .encode values types
  | .error fault => .fault fault

/-- The failure to decode data, if all descriptions have a type to name. -/
def decodeFailure (descriptions : List Description) (data : Octets) : CodecFailure :=
  match descriptions.mapM Description.type with
  | .ok types => .decode types data
  | .error fault => .fault fault

/-- The types that texts write, read in order.  A text that is no type gives the
failure; a size that is too long to be read, or too many levels, give a fault. -/
def readTypes (failure : CodecFailure) (types : List Text) : Except CodecFailure (List AbiType) :=
  (types.mapM AbiType.ofText).mapError fun
    | .unknown => failure
    | .longSize => .fault .unreadableSize
    | .tooNested => .fault .tooNested

/-- The encoding of values under their types. -/
def encodeAs (descriptions : List Description) (values : List Value) (types : List Text) :
    Except CodecFailure Octets := do
  let failure := encodeFailure descriptions values
  let layouts := Layout.ofDescriptions descriptions
  let values ← (layouts.zip values).mapM fun (layout, v) =>
    (layout.prepare v).mapError fun _ => failure
  let types ← readTypes failure types
  match Encoding.encode? (.tuple types) (.tuple values) with
  | some data => return data
  | none => .error failure

/-- Encodes values under their descriptions. -/
def encodeParameters (descriptions : List Description) (values : List Value) :
    Except CodecFailure Octets :=
  if descriptions.length ≠ values.length then .error (encodeFailure descriptions values)
  else
    match descriptions.mapM Description.ownType with
    | .error .noMember => .error (.fault .noMember)
    | .error _ => .error (encodeFailure descriptions values)
    | .ok types => encodeAs descriptions values types

/-- Decodes data as a tuple of types. -/
def decodeTypes (types : List AbiType) (data : Octets) :
    Except Decoding.Failure (List Value) := do
  if AbiType.anyDynamic types then
    Decoding.walk data (32 * Decoding.headWordsOfAll types) types data
  let (vs, _) ← Decoding.decodeMembers data types data
  return vs

/-- Decodes data as a tuple of the types that texts write. -/
def decodeAs (failure : CodecFailure) (types : List Text) (data : Octets) :
    Except CodecFailure (List Value) := do
  let types ← readTypes failure types
  (decodeTypes types data).mapError fun
    | .malformed => failure
    | .tooLong => .fault .overflow

/-- Decodes data under descriptions.  What follows the encoding is ignored. -/
def decodeParameters (descriptions : List Description) (data : Octets) :
    Except CodecFailure (List Value) :=
  match descriptions.mapM Description.ownType with
  | .error .noMember => .error (.fault .noMember)
  | .error .missingKey => .error (.fault .missingKey)
  | .error _ => .error (decodeFailure descriptions data)
  | .ok types => do
      let values ← decodeAs (decodeFailure descriptions data) types data
      ((Layout.ofDescriptions descriptions).zip values).mapM fun (layout, v) =>
        (layout.restore v).mapError .fault

end Codec

end ContractBindings
