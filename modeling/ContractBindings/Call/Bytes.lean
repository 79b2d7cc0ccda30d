import ContractBindings.Fault
import ContractBindings.Number.Rounding
import ContractBindings.Value

namespace ContractBindings

/-!
# Bytes from values

A byte string can be given as itself, as a sequence of numbers or as its
length, in which case all its bytes are zero.
-/

namespace Octets

/-- The byte that a value stands for. -/
def byteOf : Value → Except Fault UInt8
  | .int i => if 0 ≤ i ∧ i < 256 then .ok (UInt8.ofNat i.toNat) else .error .badValue
  | .bool b => .ok (if b then 1 else 0)
  | _ => .error .wrongKind

/-- The longest byte string is this much shorter than the longest length that a
machine word with a sign can count. -/
def overhead : Nat := 33

/-- The length from which on there is no memory for a byte string. -/
def memoryLimit : Nat := twoTo 33

/-- That many zero bytes.  A number below zero is refused for its value if a
machine word holds it. -/
def zeros (count : Int) : Except Fault Octets :=
  if count < -(twoTo 63 : Int) then .error .overflow
  else if count < 0 then .error .badValue
  else if (twoTo 63 : Int) - 1 - overhead < count then .error .overflow
  else if memoryLimit ≤ count then .error .outOfMemory
  else .ok (List.replicate count.toNat 0)

/-- The byte string that a value stands for. -/
def ofValue : Value → Except Fault Octets
  | .bytes b => .ok b
  | .int i => zeros i
  | .bool b => zeros (if b then 1 else 0)
  | .list vs => vs.mapM byteOf
  | .tuple vs => vs.mapM byteOf
  | .dict entries => entries.mapM fun entry => byteOf (.ofKey entry.1)
  | _ => .error .wrongKind

/-- The byte string that a value stands for, where text is hexadecimal with or
without 0x in front. -/
def ofHexOrValue : Value → Except Fault Octets
  | .text t =>
      let digits := (Text.dropStart? t "0x").getD ((Text.dropStart? t "0X").getD t)
      match ofSpacedHex? digits with
      | some b => .ok b
      | none => .error .badValue
  | v => ofValue v

end Octets

end ContractBindings
