import ContractBindings.Codec.Type
import ContractBindings.Number.Rounding
import ContractBindings.Text.Hex
import ContractBindings.Value

namespace ContractBindings

/-!
# Encoding

Values are written in words of 32 bytes.  The parts of a tuple or an array
form a head and a tail: a static part stands in the head, a dynamic one in the
tail, where an offset in the head points to it.  A value that does not belong
to the type has no encoding.
-/

namespace Encoding

/-- A number as a word. -/
def word (n : Nat) : Octets :=
  Octets.ofNat 32 n

/-- An integer as a word, a negative one in two's complement. -/
def signedWord (i : Int) : Octets :=
  word (i % (twoTo 256 : Int)).toNat

/-- Zero bytes that fill a number of bytes up to whole words. -/
def padding (length : Nat) : Octets :=
  List.replicate ((32 - length % 32) % 32) 0

/-- Bytes with zero bytes behind, as whole words. -/
def padded (bytes : Octets) : Octets :=
  bytes ++ padding bytes.length

/-- A part of a tuple or an array. -/
structure Part where
  isDynamic : Bool
  encoding : Octets

namespace Part

/-- The bytes that a part takes in the head. -/
def headLength (part : Part) : Nat :=
  if part.isDynamic then 32 else part.encoding.length

/-- The bytes that parts take in the head. -/
def headsLength : List Part → Nat
  | [] => 0
  | part :: parts => part.headLength + headsLength parts

/-- The head of parts whose tails begin at an offset. -/
def heads : (offset : Nat) → List Part → Octets
  | _, [] => []
  | offset, part :: parts =>
      if part.isDynamic then word offset ++ heads (offset + part.encoding.length) parts
      else part.encoding ++ heads offset parts

/-- The tails of parts. -/
def tails : List Part → Octets
  | [] => []
  | part :: parts => (if part.isDynamic then part.encoding else []) ++ tails parts

/-- Parts as a head and a tail. -/
def assemble (parts : List Part) : Octets :=
  heads (headsLength parts) parts ++ tails parts

end Part

/-- The least and the greatest integer of a width. -/
def integerRange (isSigned : Bool) (bits : Nat) : Int × Int :=
  if isSigned then (-(twoTo (bits - 1) : Int), (twoTo (bits - 1) : Int) - 1)
  else (0, (twoTo bits : Int) - 1)

/-- An integer of a width. -/
def integer? (isSigned : Bool) (bits : Nat) : Value → Option Octets
  | .int i =>
      let (least, greatest) := integerRange isSigned bits
      if least ≤ i ∧ i ≤ greatest then some (signedWord i) else none
  | _ => none

/-- The format in which numbers with a fixed point are computed. -/
def computing : DecimalFormat :=
  ⟨999, -1000997⟩

/-- A finite number other than a negative zero, in parts. -/
structure Finite where
  isNegative : Bool
  coefficient : Nat
  exponent : Int

namespace Finite

/-- The number that a value stands for, if it is one. -/
def ofValue? : Value → Option Finite
  | .int i => some ⟨i < 0, i.natAbs, 0⟩
  | .bool b => some ⟨false, if b then 1 else 0, 0⟩
  | .decimal (.finite negative coefficient exponent) =>
      some ⟨negative && coefficient ≠ 0, coefficient, exponent⟩
  | _ => none

/-- The whole number that a magnitude times `10 ^ places` is cut to, and what
the digits write that are cut off. -/
def cut (coefficient : Nat) (exponent : Int) (places : Nat) : Nat × Nat :=
  let shift := exponent + places
  if 0 ≤ shift then (coefficient * tenTo shift.toNat, 0)
  else splitDigits coefficient (-shift).toNat

/-- The number times `10 ^ places` lies between two integers.  None that is
wider than a word does. -/
def isWithin (number : Finite) (places : Nat) (least greatest : Int) : Bool :=
  if number.coefficient = 0 then true
  else if (digitCount number.coefficient : Int) + number.exponent + places > 100 then false
  else
    let (whole, rest) := cut number.coefficient number.exponent places
    let bound : Int := if rest = 0 then whole else whole + 1
    if number.isNegative then least ≤ -bound else bound ≤ greatest

/-- Whether the digits below the unit `10 ^ -places` amount to anything, as far
as this can be computed. -/
def hasExcess (number : Finite) (places : Nat) : Bool :=
  let (_, rest) := cut number.coefficient number.exponent places
  (computing.round rest number.exponent).1 ≠ 0

/-- The magnitude in units of `10 ^ -places`, as computed, without what is below
the unit. -/
def units (number : Finite) (places : Nat) : Nat :=
  let (coefficient, exponent) :=
    computing.round (number.coefficient * tenTo places) number.exponent
  (cut coefficient exponent 0).1

end Finite

/-- The word for a magnitude.  The least number of bytes in two's complement is
filled up with ones if the number is negative, so that a negative number without
units leaves its one zero byte. -/
def filledWord (isNegative : Bool) (magnitude : Nat) : Octets :=
  if isNegative then
    if magnitude = 0 then List.replicate 31 255 ++ [0] else signedWord (-(magnitude : Int))
  else word magnitude

/-- A number with a fixed point.  Digits below the unit rule a positive number
out and are cut off a negative one. -/
def fixedPoint? (isSigned : Bool) (bits places : Nat) (v : Value) : Option Octets := do
  let number ← Finite.ofValue? v
  let (least, greatest) := integerRange isSigned bits
  if number.isWithin places least greatest then
    if ! number.isNegative && number.hasExcess places then none
    else some (filledWord number.isNegative (number.units places))
  else none

/-- The bytes of an address: twenty bytes or forty digits. -/
def addressBytes? : Value → Option Octets
  | .bytes b => if b.length = 20 then some b else none
  | .text t =>
      let digits :=
        (Text.dropStart? t "0x").getD ((Text.dropStart? t "0X").getD t)
      if digits.length = 40 then Octets.ofHex? digits else none
  | _ => none

/-- The members of a list or a tuple. -/
def sequence? : Value → Option (List Value)
  | .list vs => some vs
  | .tuple vs => some vs
  | _ => none

/-- Bytes of any length, after their number. -/
def counted (bytes : Octets) : Octets :=
  word bytes.length ++ padded bytes

mutual

/-- The encoding of a value under a type, if it has one. -/
def encode? : AbiType → Value → Option Octets
  | .uint bits, v => integer? false bits v
  | .int bits, v => integer? true bits v
  | .fixedPoint isSigned bits places, v => fixedPoint? isSigned bits places v
  | .bool, .bool b => some (word (if b then 1 else 0))
  | .bool, _ => none
  | .address, v => (addressBytes? v).map fun b => List.replicate 12 0 ++ b
  | .fixedBytes size, .bytes b =>
      if b.length ≤ size then some (b ++ List.replicate (32 - b.length) 0) else none
  | .fixedBytes _, _ => none
  | .bytes, .bytes b => some (counted b)
  | .bytes, _ => none
  | .string, .text t => if Text.isScalar t then some (counted (Text.utf8 t)) else none
  | .string, _ => none
  | .array element size, v => do
      let vs ← sequence? v
      let parts ← vs.mapM fun v => (encode? element v).map (Part.mk element.isDynamic)
      match size with
      | none => some (word vs.length ++ Part.assemble parts)
      | some n => if vs.length = n then some (Part.assemble parts) else none
  | .tuple members, v => do
      let vs ← sequence? v
      (encodeParts? members vs).map Part.assemble

/-- The values of a tuple as parts, one for each member. -/
def encodeParts? : List AbiType → List Value → Option (List Part)
  | [], [] => some []
  | type :: types, v :: vs => do
      let encoding ← encode? type v
      let parts ← encodeParts? types vs
      some (⟨type.isDynamic, encoding⟩ :: parts)
  | _, _ => none

end

end Encoding

end ContractBindings
