import ContractBindings.Call.Bytes

namespace ContractBindings

/-!
# Byte string types

Generated modules have a type of byte strings for each length and one for any
length.  A byte string is made of bytes or of hexadecimal text.
-/

/-- A type of byte strings. -/
structure ByteStringType where
  name : Text
  /-- The length of all byte strings of the type, if there is only one. -/
  length : Option Int
  deriving DecidableEq

/-- Why there is no byte string of a type. -/
inductive ByteStringFailure where
  /-- The text is not hexadecimal. -/
  | notHex (type : ByteStringType) (text : Text)
  | wrongLength (type : ByteStringType) (length : Int) (actual : Nat)
  /-- There are too many bytes to be padded. -/
  | tooLong (type : ByteStringType) (length : Int) (actual : Nat)
  | fault (fault : Fault)
  deriving DecidableEq

namespace ByteStringFailure

/-- The message of a failure that has one. -/
def message? : ByteStringFailure → Option Text
  | .notHex type text =>
      some ("Cannot create " ++ type.name ++ " from '" ++ text ++
        "', expected a hex encoded string with an optional 0x prefix")
  | .wrongLength type length actual =>
      some (type.name ++ " must be exactly " ++ Text.ofInt length ++ " bytes long, got " ++
        Text.ofNat actual)
  | .tooLong type length actual =>
      some ("Source bytes are longer (" ++ Text.ofNat actual ++ ") than " ++ type.name ++ " (" ++
        Text.ofInt length ++ ")")
  | .fault _ => none

end ByteStringFailure

namespace ByteStringType

/-- A type with a name, which UTF-8 has to write without a zero. -/
def named (name : Text) (length : Option Int) : Except Fault ByteStringType :=
  if ! Text.isScalar name then .error .unencodable
  else if name.any (·.val = 0) then .error .badValue
  else .ok ⟨name, length⟩

/-- The bytes of hexadecimal text with 0x in front or without it.  A line break
may end the text. -/
def bytesOfHex? (t : Text) : Option Octets :=
  let t := (Text.dropEnd? t "\n").getD t
  Octets.ofHex? ((Text.dropStart? t "0x").getD ((Text.dropStart? t "0X").getD t))

/-- Reads hexadecimal text. -/
def readHex (type : ByteStringType) (t : Text) : Except ByteStringFailure Octets :=
  match bytesOfHex? t with
  | some b => .ok b
  | none => .error (.notHex type t)

/-- The number of members of a value that has members. -/
def count : Value → Except Fault Nat
  | .bytes b => .ok b.length
  | .text t => .ok t.length
  | .list vs => .ok vs.length
  | .tuple vs => .ok vs.length
  | .dict entries => .ok entries.length
  | _ => .error .wrongKind

/-- Refuses a value whose number of members is not the length of the type. -/
def checkLength (type : ByteStringType) (v : Value) : Except ByteStringFailure Unit :=
  match type.length with
  | none => .ok ()
  | some length => do
      let actual ← (count v).mapError .fault
      if (actual : Int) = length then .ok () else .error (.wrongLength type length actual)

/-- The byte string made of a value.  Null stands for zero bytes. -/
def make (type : ByteStringType) (v : Value) : Except ByteStringFailure Octets := do
  let v ← match v with
    | .null => ((Octets.zeros (type.length.getD 0)).map .bytes).mapError .fault
    | .text t => (type.readHex t).map .bytes
    | v => .ok v
  type.checkLength v
  (Octets.ofValue v).mapError .fault

/-- The byte string made of hexadecimal text. -/
def ofHex (type : ByteStringType) : Value → Except ByteStringFailure Octets
  | .text t => do type.make (.bytes (← type.readHex t))
  | _ => .error (.fault .wrongKind)

/-- The byte string made of bytes with zero bytes on the left or the right. -/
def padded (type : ByteStringType) (onLeft : Bool) (v : Value) :
    Except ByteStringFailure Octets :=
  match type.length with
  | none => type.make v
  | some length => do
      let actual ← (count v).mapError .fault
      if length < actual then .error (.tooLong type length actual)
      else
        let zeros ← (Octets.zeros (length - actual)).mapError .fault
        match v with
        | .bytes b => type.make (.bytes (if onLeft then zeros ++ b else b ++ zeros))
        | _ => .error (.fault .wrongKind)

/-- The hexadecimal text of a byte string. -/
def hexText (bytes : Octets) : Text :=
  "0x" ++ Octets.toHex bytes

/-- A byte string as a literal of its type. -/
def literal (type : ByteStringType) (bytes : Octets) : Text :=
  type.name ++ "(" ++ (hexText bytes).quoted ++ ")"

end ByteStringType

end ContractBindings
