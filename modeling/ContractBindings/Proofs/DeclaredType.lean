import ContractBindings.Codec.Layout
import ContractBindings.Codec.TypeReader
import ContractBindings.Proofs.EncodingRoundTrip

namespace ContractBindings

/-!
# Declared types

The types that parameters are declared with, as trees: scalars, arrays and
tuples of named components.  A declared type says how a description writes it,
which values belong to it and in which two forms these values appear, with a
tuple as a sequence on the side of the encoding and as a mapping in the order of
the components on the side of the callers.
-/

namespace Parameter

@[simp]
theorem length_fillNames
    (make : Nat → α)
    (isNamed : α → Bool)
    (next : Nat)
    (names : List α) :
    (fillNames make isNamed next names).length = names.length := by
  induction names generalizing next with
  | nil =>
      rfl
  | cons name names inductionHypothesis =>
      rw [fillNames]
      split <;> simp [inductionHypothesis]

end Parameter

/-- A type without elements and components.  A number without a width has the
greatest one. -/
inductive ScalarType where
  | uint (width : Option Nat)
  | int (width : Option Nat)
  | address
  | bool
  | fixedBytes (size : Nat)
  | bytes
  | string
  deriving DecidableEq, Repr

namespace ScalarType

/-- The digits of a width or a size, where there is one. -/
def digits (size : Option Nat) : Text :=
  (size.map Text.ofNat).getD []

/-- The type as descriptions and signatures write it. -/
def text : ScalarType → Text
  | .uint width => "uint" ++ digits width
  | .int width => "int" ++ digits width
  | .address => "address"
  | .bool => "bool"
  | .fixedBytes size => "bytes" ++ Text.ofNat size
  | .bytes => "bytes"
  | .string => "string"

/-- The sizes behind the word of a number. -/
def sizes : (width : Option Nat) → Sizes
  | none => .none
  | some width => .one (Text.ofNat width)

/-- The form of the text. -/
def form : ScalarType → TypeForm
  | .uint width => .word "uint" (sizes width)
  | .int width => .word "int" (sizes width)
  | .address => .word "address" .none
  | .bool => .word "bool" .none
  | .fixedBytes size => .word "bytes" (.one (Text.ofNat size))
  | .bytes => .word "bytes" .none
  | .string => .word "string" .none

/-- The type that values are encoded under. -/
def abiType : ScalarType → AbiType
  | .uint width => .uint (width.getD 256)
  | .int width => .int (width.getD 256)
  | .address => .address
  | .bool => .bool
  | .fixedBytes size => .fixedBytes size
  | .bytes => .bytes
  | .string => .string

/-- Widths are whole bytes up to a word, sizes lie between 1 and 32. -/
def isValid : ScalarType → Bool
  | .uint width => width.all AbiType.isWidth
  | .int width => width.all AbiType.isWidth
  | .fixedBytes size => 1 ≤ size && size ≤ 32
  | _ => true

/-- Whether a value belongs to the type. -/
def holds : ScalarType → Value → Bool
  | .uint width, .int i => 0 ≤ i && i < twoTo (width.getD 256)
  | .int width, .int i =>
      -(twoTo (width.getD 256 - 1) : Int) ≤ i && i < twoTo (width.getD 256 - 1)
  | .address, .bytes b => b.length = 20
  | .bool, .bool _ => true
  | .fixedBytes size, .bytes b => b.length = size
  | .bytes, .bytes _ => true
  | .string, .text t => Text.isScalar t
  | _, _ => false

end ScalarType

/-- A type that a parameter is declared with. -/
inductive DeclaredType where
  | scalar (type : ScalarType)
  /-- An array of a given size, or of any size. -/
  | array (element : DeclaredType) (size : Option Nat)
  /-- The names of the components with their types. -/
  | tuple (components : List (Text × DeclaredType))

/-- The names of parameters or components with their types. -/
abbrev Declarations := List (Text × DeclaredType)

namespace DeclaredType

/-- Declared types are built from scalars, arrays and tuples. -/
@[elab_as_elim]
theorem inductionOnComponents
    {motive : DeclaredType → Prop}
    (scalar : ∀ type, motive (.scalar type))
    (array : ∀ element size, motive element → motive (.array element size))
    (tuple :
      ∀ components : Declarations,
        (∀ component ∈ components, motive component.2) → motive (.tuple components))
    (type : DeclaredType) :
    motive type :=
  DeclaredType.rec scalar array tuple
    (fun _ member => absurd member List.not_mem_nil)
    (fun _ _ first others _ member =>
      (List.mem_cons.mp member).elim (fun same => same ▸ first) (others _))
    (fun _ _ isType => isType)
    type

def suffix (size : Option Nat) : Text :=
  "[" ++ ScalarType.digits size ++ "]"

/-- The type as a description writes it, with the components kept apart. -/
def text : DeclaredType → Text
  | .scalar type => type.text
  | .array element size => element.text ++ suffix size
  | .tuple _ => "tuple"

/-- The keys under which the values of declared parameters are stored. -/
def keys (declarations : Declarations) : List Text :=
  Parameter.fillNames Parameter.standIn (! ·.isEmpty) 1 (declarations.map (·.1))

mutual

/-- The type as a signature writes it. -/
def signature : DeclaredType → Text
  | .scalar type => type.text
  | .array element size => element.signature ++ suffix size
  | .tuple components => "(" ++ Text.join "," (signatures components) ++ ")"

/-- The types of several declarations as signatures write them. -/
def signatures : Declarations → List Text
  | [] => []
  | (_, type) :: rest => type.signature :: signatures rest

end

mutual

/-- The form of the type in a signature. -/
def form : DeclaredType → TypeForm
  | .scalar type => type.form
  | .array element size => .array element.form (size.map Text.ofNat)
  | .tuple components => .tuple (forms components)

def forms : Declarations → List TypeForm
  | [] => []
  | (_, type) :: rest => type.form :: forms rest

end

mutual

/-- The type that values are encoded under. -/
def abiType : DeclaredType → AbiType
  | .scalar type => type.abiType
  | .array element size => .array element.abiType size
  | .tuple components => .tuple (abiTypes components)

def abiTypes : Declarations → List AbiType
  | [] => []
  | (_, type) :: rest => type.abiType :: abiTypes rest

end

mutual

/-- Where the two forms of a value differ. -/
def layout : DeclaredType → Layout
  | .scalar type => if type = .address then .address else .plain
  | .array element _ => .list element.layout
  | .tuple components =>
      .record (.ok ((keys components).map .text)) (layouts components)

def layouts : Declarations → List Layout
  | [] => []
  | (_, type) :: rest => type.layout :: layouts rest

end

mutual

/-- Types that the interface of a contract can have: no empty arrays of a fixed
size and no tuples without components. -/
def isValid : DeclaredType → Bool
  | .scalar type => type.isValid
  | .array element size => element.isValid && size ≠ some 0
  | .tuple components => allValid components && ! components.isEmpty

def allValid : Declarations → Bool
  | [] => true
  | (_, type) :: rest => type.isValid && allValid rest

end

mutual

/-- No two components of a tuple share a key. -/
def hasDistinctKeys : DeclaredType → Bool
  | .scalar _ => true
  | .array element _ => element.hasDistinctKeys
  | .tuple components => allDistinctKeys components && decide (keys components).Nodup

/-- No two components of a tuple in any of the types share a key. -/
def allDistinctKeys : Declarations → Bool
  | [] => true
  | (_, type) :: rest => type.hasDistinctKeys && allDistinctKeys rest

end

mutual

/-- The number of parentheses that stand in each other in the signature. -/
def parentheses : DeclaredType → Nat
  | .scalar _ => 0
  | .array element _ => element.parentheses
  | .tuple components => mostParentheses components + 1

/-- The greatest number of parentheses that stand in each other. -/
def mostParentheses : Declarations → Nat
  | [] => 0
  | (_, type) :: rest => max type.parentheses (mostParentheses rest)

end

/-- Types whose text is read to its end: the parentheses, the levels and the
digits of the sizes stay below the limits of the reader. -/
def isReadable (type : DeclaredType) : Bool :=
  type.parentheses ≤ TypeForm.greatestNesting &&
    type.form.levels ≤ AbiType.greatestLevels &&
    type.form.sizes.all fun size => size.length ≤ AbiType.greatestSizeLength

/-- The values of a mapping under some keys, in the order of the keys. -/
def valuesUnder (keys : List Text) (entries : Entries) : List Value :=
  keys.map fun key => (entries.get? (.text key)).getD .null

mutual

/-- Whether a value belongs to the type.  A tuple is a mapping with one entry for
each key of a component, in any order. -/
def holds : DeclaredType → Value → Bool
  | .scalar type, v => type.holds v
  | .array element size, .list vs =>
      size.all (· = vs.length) && vs.all element.holds
  | .tuple components, .dict entries =>
      (entries.map (·.1)).isPerm ((keys components).eraseDups.map .text) &&
        allHold components (valuesUnder (keys components) entries)
  | _, _ => false

/-- Whether values belong to as many declared types. -/
def allHold : Declarations → List Value → Bool
  | [], [] => true
  | (_, type) :: rest, v :: vs => type.holds v && allHold rest vs
  | _, _ => false

end

mutual

/-- A value with every tuple as the sequence of its components. -/
def positional : DeclaredType → Value → Value
  | .array element _, .list vs => .list (vs.map element.positional)
  | .tuple components, .dict entries =>
      .tuple (allPositional components (valuesUnder (keys components) entries))
  | _, v => v

/-- Values with every tuple as the sequence of its components. -/
def allPositional : Declarations → List Value → List Value
  | (_, type) :: rest, v :: vs => type.positional v :: allPositional rest vs
  | _, _ => []

end

mutual

/-- A value with every tuple as a mapping in the order of its components. -/
def ordered : DeclaredType → Value → Value
  | .array element _, .list vs => .list (vs.map element.ordered)
  | .tuple components, .dict entries =>
      .dict (((keys components).map Key.text).zip
        (allOrdered components (valuesUnder (keys components) entries)))
  | _, v => v

/-- Values with every tuple as a mapping in the order of its components. -/
def allOrdered : Declarations → List Value → List Value
  | (_, type) :: rest, v :: vs => type.ordered v :: allOrdered rest vs
  | _, _ => []

end

mutual

/-- What a description says about components fits the type. -/
def Fits : DeclaredType → Components → Prop
  | .scalar _, _ => True
  | .array element _, components => element.Fits components
  | .tuple declarations, .listed members => Describe declarations members
  | .tuple _, _ => False

/-- Descriptions with the names and the types of declarations, in order.  They
may say more than that. -/
def Describe : Declarations → List Description → Prop
  | [], [] => True
  | (name, type) :: rest, .mapping entries components :: descriptions =>
      entries.get? (.text "name") = some (.text name) ∧
        entries.get? (.text "type") = some (.text type.text) ∧
          type.Fits components ∧ Describe rest descriptions
  | _, _ => False

end

theorem allValid_iff
    {declarations : Declarations} :
    allValid declarations = true ↔
      ∀ declaration ∈ declarations, declaration.2.isValid = true := by
  induction declarations with
  | nil =>
      simp [allValid]
  | cons declaration declarations inductionHypothesis =>
      simp [allValid, inductionHypothesis]

theorem isValid_tuple_iff
    {components : Declarations} :
    (DeclaredType.tuple components).isValid = true ↔
      (∀ component ∈ components, component.2.isValid = true) ∧ components ≠ [] := by
  simp [isValid, allValid_iff]

theorem isValid_array_iff
    {element : DeclaredType}
    {size : Option Nat} :
    (DeclaredType.array element size).isValid = true ↔
      element.isValid = true ∧ size ≠ some 0 := by
  simp [isValid]

/-- No two components share a key if this holds for each of the types. -/
theorem allDistinctKeys_iff
    {declarations : Declarations} :
    allDistinctKeys declarations = true ↔
      ∀ declaration ∈ declarations, declaration.2.hasDistinctKeys = true := by
  induction declarations with
  | nil =>
      simp [allDistinctKeys]
  | cons declaration declarations inductionHypothesis =>
      simp [allDistinctKeys, inductionHypothesis]

theorem hasDistinctKeys_tuple_iff
    {components : Declarations} :
    (DeclaredType.tuple components).hasDistinctKeys = true ↔
      (∀ component ∈ components, component.2.hasDistinctKeys = true) ∧
        (keys components).Nodup := by
  simp [hasDistinctKeys, allDistinctKeys_iff]

@[simp]
theorem length_keys
    (declarations : Declarations) :
    (keys declarations).length = declarations.length := by
  simp [keys]

end DeclaredType

end ContractBindings
