import ContractBindings.Codec.Type
import ContractBindings.Codec.TypeForm

namespace ContractBindings

/-!
# Reading types

A type is read in two steps: its form, and then what the words and sizes of the
form mean.  Some words without a size stand for another type.  A form with a
size that has too many digits, or with too many levels, is refused before its
words are looked at.
-/

/-- Why a text is no type. -/
inductive TypeFailure where
  /-- It has no form, or its words and sizes name no type. -/
  | unknown
  /-- A size has more digits than are read. -/
  | longSize
  /-- Too many arrays and tuples stand in each other. -/
  | tooNested
  deriving DecidableEq, Repr

namespace AbiType

/-- The number that ASCII digits write. -/
def numberOf (digits : Text) : Nat :=
  digits.foldl (fun n c => 10 * n + (c.val - 0x30)) 0

/-- The number of digits that a size can have. -/
def greatestSizeLength : Nat := 4300

/-- The widths of numbers: whole bytes, up to 32 of them. -/
def isWidth (bits : Nat) : Bool :=
  8 ≤ bits && bits ≤ 256 && bits % 8 = 0

/-- A number with a fixed point, if its sizes are in range. -/
def fixedPoint? (isSigned : Bool) (bits places : Nat) : Option AbiType :=
  if isWidth bits && 1 ≤ places && places ≤ 80 then some (.fixedPoint isSigned bits places)
  else none

/-- The type of a word without a size. -/
def ofPlainWord? (word : Text) : Option AbiType :=
  if word = "uint" then some (.uint 256)
  else if word = "int" then some (.int 256)
  else if word = "ufixed" then some (.fixedPoint false 128 18)
  else if word = "fixed" then some (.fixedPoint true 128 18)
  else if word = "function" then some (.fixedBytes 24)
  else if word = "byte" then some (.fixedBytes 1)
  else if word = "address" then some .address
  else if word = "bool" then some .bool
  else if word = "bytes" then some .bytes
  else if word = "string" then some .string
  else none

/-- The type of a word with one size. -/
def ofSizedWord? (word : Text) (size : Nat) : Option AbiType :=
  if word = "uint" then if isWidth size then some (.uint size) else none
  else if word = "int" then if isWidth size then some (.int size) else none
  else if word = "bytes" then if size ≤ 32 then some (.fixedBytes size) else none
  else if word = "bool" then some .bool
  else none

/-- The type of a word with two sizes. -/
def ofFixedPointWord? (word : Text) (bits places : Nat) : Option AbiType :=
  if word = "ufixed" then fixedPoint? false bits places
  else if word = "fixed" then fixedPoint? true bits places
  else if word = "bool" then some .bool
  else none

/-- The type of a word with its sizes.  Any sizes of a truth value are ignored. -/
def ofWord? (word : Text) : Sizes → Option AbiType
  | .none => ofPlainWord? word
  | .one size => ofSizedWord? word (numberOf size)
  | .two bits places => ofFixedPointWord? word (numberOf bits) (numberOf places)

mutual

/-- The type that a form means. -/
def ofForm? : TypeForm → Option AbiType
  | .word letters sizes => ofWord? letters sizes
  | .array element size => (ofForm? element).map fun type => .array type (size.map numberOf)
  | .tuple members => (ofForms? members).map .tuple

/-- The types that all of some forms mean. -/
def ofForms? : List TypeForm → Option (List AbiType)
  | [] => some []
  | member :: members => do
      let type ← ofForm? member
      let types ← ofForms? members
      return type :: types

end

/-- The type that a text writes.  One word stands for a type only as a part of
another one. -/
def ofText (t : Text) : Except TypeFailure AbiType :=
  match TypeForm.ofText t with
  | .error .malformed => .error .unknown
  | .error .tooNested => .error .tooNested
  | .ok form =>
      if form.sizes.any fun size => greatestSizeLength < size.length then .error .longSize
      else if greatestLevels < form.levels then .error .tooNested
      else if t = "byte" then .error .unknown
      else
        match ofForm? form with
        | some type => .ok type
        | none => .error .unknown

end AbiType

end ContractBindings
