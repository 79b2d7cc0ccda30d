import ContractBindings.Codec.Type
import ContractBindings.Number.Rounding
import ContractBindings.Text.Hex
import ContractBindings.Value

namespace ContractBindings

/-!
# Decoding

A decoder takes a value off the front of what is left of the data.  Padding has
to be what the encoder writes.  The parts of a dynamic tuple or array are found
by offsets from the place where its parts begin; before any of them is followed
all are checked to point behind the head and into the data.
-/

namespace Decoding

/-- Why data is no encoding. -/
inductive Failure where
  /-- It ends early, or holds bytes that no encoding has there. -/
  | malformed
  /-- It announces more bytes than memory can hold. -/
  | tooLong
  deriving DecidableEq, Repr

/-- Something taken off the front of the data, and what is left. -/
abbrev Taken (α : Type) := α × Octets

/-- A number of bytes from the front. -/
def take (count : Nat) (data : Octets) : Except Failure (Taken Octets) :=
  if data.length < count then .error .malformed
  else .ok (data.take count, data.drop count)

/-- A word from the front, as a number. -/
def takeWord (data : Octets) : Except Failure (Taken Nat) := do
  let (bytes, rest) ← take 32 data
  return (Octets.toNat bytes, rest)

/-- The integer that a word stands for in two's complement. -/
def signed (n : Nat) : Int :=
  if n < twoTo 255 then n else (n : Int) - twoTo 256

/-- An integer of a width. -/
def takeInteger (isSigned : Bool) (bits : Nat) (data : Octets) : Except Failure (Taken Int) := do
  let (n, rest) ← takeWord data
  if isSigned then
    let i := signed n
    if -(twoTo (bits - 1) : Int) ≤ i ∧ i < twoTo (bits - 1) then return (i, rest)
    else .error .malformed
  else if n < twoTo bits then return ((n : Int), rest)
  else .error .malformed

/-- A truth value. -/
def takeBool (data : Octets) : Except Failure (Taken Bool) := do
  let (n, rest) ← takeWord data
  if n = 0 then return (false, rest)
  else if n = 1 then return (true, rest)
  else .error .malformed

/-- An address in hexadecimal digits. -/
def takeAddress (data : Octets) : Except Failure (Taken Text) := do
  let (bytes, rest) ← take 32 data
  if (bytes.take 12).all (· = 0) then
    return ("0x" ++ Octets.toHex (bytes.drop 12), rest)
  else .error .malformed

/-- Bytes of a fixed size. -/
def takeFixedBytes (size : Nat) (data : Octets) : Except Failure (Taken Octets) := do
  let (bytes, rest) ← take 32 data
  if (bytes.drop size).all (· = 0) then return (bytes.take size, rest)
  else .error .malformed

/-- A number of bytes rounded up to whole words. -/
def wholeWords (length : Nat) : Nat :=
  (length + 31) / 32 * 32

/-- Bytes of any length, after their number. -/
def takeBytes (data : Octets) : Except Failure (Taken Octets) := do
  let (length, rest) ← takeWord data
  if twoTo 63 ≤ wholeWords length then .error .tooLong
  else
    let (bytes, rest) ← take (wholeWords length) rest
    if (bytes.drop length).all (· = 0) then return (bytes.take length, rest)
    else .error .malformed

/-- A text after the number of its bytes. -/
def takeText (data : Octets) : Except Failure (Taken Text) := do
  let (bytes, rest) ← takeBytes data
  match Text.ofUtf8? bytes with
  | some t => return (t, rest)
  | none => .error .malformed

/-- The words that a component counts for in the head of a tuple.  An array of
static elements counts for its size, anything else for one. -/
def headWords : AbiType → Nat
  | .array element (some size) => if element.isDynamic then 1 else size
  | _ => 1

/-- The words that the components of a tuple count for in its head. -/
def headWordsOfAll : List AbiType → Nat
  | [] => 0
  | member :: members => headWords member + headWordsOfAll members

/-- A number of values one after another. -/
def takeMany (one : Octets → Except Failure (Taken Value)) : (count : Nat) → (data : Octets) →
    Except Failure (Taken (List Value))
  | 0, data => .ok ([], data)
  | count + 1, data => do
      let (v, data) ← one data
      let (vs, data) ← takeMany one count data
      return (v :: vs, data)

/-- Checks an offset from `start`: behind `headLength` bytes and into the data. -/
def checkOffset (start : Octets) (headLength offset : Nat) : Except Failure Unit :=
  if headLength ≤ offset ∧ offset < start.length then .ok () else .error .malformed

/-- Checks the offsets of a number of dynamic parts from `start`. -/
def checkOffsets (start : Octets) (headLength : Nat) : (count : Nat) → (data : Octets) →
    Except Failure Unit
  | 0, _ => .ok ()
  | count + 1, data => do
      let (offset, data) ← takeWord data
      checkOffset start headLength offset
      checkOffsets start headLength count data

/-- Follows the offset of a dynamic part, counted from `start`. -/
def follow (start : Octets) (decode : Octets → Except Failure (Taken Value)) (data : Octets) :
    Except Failure (Taken Value) := do
  let (offset, rest) ← takeWord data
  let (v, _) ← decode (start.drop offset)
  return (v, rest)

/-- A part of a tuple or an array that begins at `start`. -/
def part (isDynamic : Bool) (start : Octets) (decode : Octets → Except Failure (Taken Value)) :
    Octets → Except Failure (Taken Value) :=
  if isDynamic then follow start decode else decode

/-- The elements of an array that begin at `start`. -/
def takeElements (isDynamic : Bool) (decode : Octets → Except Failure (Taken Value)) (count : Nat)
    (start : Octets) : Except Failure (Taken Value) := do
  if start.length < 32 * count then .error .malformed
  else
    if isDynamic then checkOffsets start (32 * count) count start
    let (vs, rest) ← takeMany (part isDynamic start decode) count start
    return (.tuple vs, rest)

mutual

/-- A value of a type. -/
def decode : AbiType → Octets → Except Failure (Taken Value)
  | .uint bits, data => (takeInteger false bits data).map fun (i, rest) => (.int i, rest)
  | .int bits, data => (takeInteger true bits data).map fun (i, rest) => (.int i, rest)
  | .fixedPoint isSigned bits places, data =>
      (takeInteger isSigned bits data).map fun (i, rest) =>
        (.decimal (Decimal.ofScaled i places), rest)
  | .bool, data => (takeBool data).map fun (b, rest) => (.bool b, rest)
  | .address, data => (takeAddress data).map fun (t, rest) => (.text t, rest)
  | .fixedBytes size, data => (takeFixedBytes size data).map fun (b, rest) => (.bytes b, rest)
  | .bytes, data => (takeBytes data).map fun (b, rest) => (.bytes b, rest)
  | .string, data => (takeText data).map fun (t, rest) => (.text t, rest)
  | .array element (some count), data =>
      takeElements element.isDynamic (decode element) count data
  | .array element none, data => do
      let (count, start) ← takeWord data
      takeElements element.isDynamic (decode element) count start
  | .tuple members, data => do
      if AbiType.anyDynamic members then
        walk data (32 * headWordsOfAll members) members data
      let (vs, rest) ← decodeMembers data members data
      return (.tuple vs, rest)

/-- The parts of a tuple that begins at `start`. -/
def decodeMembers (start : Octets) : List AbiType → Octets → Except Failure (Taken (List Value))
  | [], data => .ok ([], data)
  | member :: members, data => do
      let (v, data) ← part member.isDynamic start (decode member) data
      let (vs, data) ← decodeMembers start members data
      return (v :: vs, data)

/-- Checks the head of a tuple that begins at `start`: static parts decode, and
the offsets of the others point behind the head and into the data. -/
def walk (start : Octets) (headLength : Nat) : List AbiType → Octets → Except Failure Unit
  | [], _ => .ok ()
  | member :: members, data => do
      if member.isDynamic then
        let (offset, data) ← takeWord data
        checkOffset start headLength offset
        walk start headLength members data
      else
        let (_, data) ← decode member data
        walk start headLength members data

end

end Decoding

end ContractBindings
