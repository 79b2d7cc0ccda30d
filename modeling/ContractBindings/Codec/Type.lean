import ContractBindings.Text.Basic

namespace ContractBindings

/-!
# Encoded types

The types that calls and logs are encoded under.  A type is dynamic if the
length of its encodings depends on the value.
-/

/-- A type of encoded values. -/
inductive AbiType where
  | uint (bits : Nat)
  | int (bits : Nat)
  /-- A number of `bits` bits counting units of `10 ^ -places`. -/
  | fixedPoint (isSigned : Bool) (bits places : Nat)
  | bool
  | address
  | fixedBytes (size : Nat)
  | bytes
  | string
  /-- An array of a given size, or of any size. -/
  | array (element : AbiType) (size : Option Nat)
  | tuple (members : List AbiType)
  deriving BEq

namespace AbiType

mutual

/-- Encodings of the type differ in length. -/
def isDynamic : AbiType → Bool
  | .bytes => true
  | .string => true
  | .array _ none => true
  | .array element (some _) => element.isDynamic
  | .tuple members => anyDynamic members
  | _ => false

/-- One of the types is dynamic. -/
def anyDynamic : List AbiType → Bool
  | [] => false
  | member :: members => member.isDynamic || anyDynamic members

end

end AbiType

end ContractBindings
