import ContractBindings.Binding.Event
import ContractBindings.Call.Event
import ContractBindings.Proofs.DeclaredParameters
import ContractBindings.Proofs.ParameterRoundTrip

namespace ContractBindings

/-!
# Parameters of declared events

An event that is emitted leaves the indexed parameters in topics, in order, and
the others in the data.  Of an indexed parameter without a fixed size the topic
is any hash.  The decoder takes the two parts apart again and puts the values
back in the order of declaration.
-/

/-- A parameter that an event declares. -/
structure DeclaredInput where
  name : Text
  type : DeclaredType
  indexed : Bool

namespace DeclaredType

/-- Arrays of a fixed size, which no event should index. -/
def isFixedArray : DeclaredType → Bool
  | .array _ (some _) => true
  | _ => false

/-- Types of which an indexed parameter leaves a hash. -/
def leavesHash : DeclaredType → Bool
  | .scalar type => type = .bytes || type = .string
  | .array _ size => size.isNone
  | .tuple _ => true

/-- Scalar types leave a hash if they are written like one of the two that do. -/
theorem isHashedWhenIndexed_scalar
    (type : ScalarType) :
    isHashedWhenIndexed type.text = (type = .bytes || type = .string) := by
  have noTuple : Text.startsWith type.text "tuple" = false := by
    rw [Text.startsWith, ← List.append_nil type.text, ScalarType.dropStart?_tuple]
    rfl
  have noArray : Text.endsWith type.text "[]" = false := by
    obtain ⟨last, rest, reversed, isWord⟩ := type.reverse_text
    have bracket : (Text.ofString "[]").reverse = [CodePoint.ofChar ']', CodePoint.ofChar '['] := by
      rfl
    rw [Text.endsWith, Text.dropEnd?, reversed, bracket,
      Text.dropStart?_cons_ne (ScalarType.ne_of_isAsciiWord isWord).1]
    rfl
  have isString : type.text = "string" ↔ type = .string :=
    ⟨fun same => ScalarType.text_injective (b := .string) same, fun same => same ▸ rfl⟩
  have isBytes : type.text = "bytes" ↔ type = .bytes :=
    ⟨fun same => ScalarType.text_injective (b := .bytes) same, fun same => same ▸ rfl⟩
  rw [isHashedWhenIndexed, noTuple, noArray]
  simp only [isString, isBytes, Bool.or_false]
  exact Bool.or_comm _ _

/-- The text of a type tells whether an indexed parameter leaves a hash, unless it is an
array of a fixed size. -/
theorem isHashedWhenIndexed_text
    {type : DeclaredType}
    (allowed : type.isFixedArray = false) :
    isHashedWhenIndexed type.text = type.leavesHash := by
  cases type with
  | scalar type =>
      exact isHashedWhenIndexed_scalar type
  | array element size =>
      cases size with
      | none =>
          have isArray : Text.endsWith (array element none).text "[]" = true := by
            have bracket : suffix none = "[]" := by
              rfl
            rw [Text.endsWith, Text.dropEnd?, text, bracket, List.reverse_append,
              Text.dropStart?_append]
            rfl
          rw [isHashedWhenIndexed, isArray, Bool.or_true]
          rfl
      | some n =>
          cases allowed
  | tuple components =>
      rfl

/-- What leaves no hash is a scalar. -/
theorem exists_scalar_of_leavesHash
    {type : DeclaredType}
    (allowed : type.isFixedArray = false)
    (leaves : type.leavesHash = false) :
    ∃ scalarType, type = scalar scalarType ∧ scalarType ≠ .bytes ∧ scalarType ≠ .string := by
  cases type with
  | scalar type =>
      simp only [leavesHash, Bool.or_eq_false_iff, decide_eq_false_iff_not] at leaves
      exact ⟨type, rfl, leaves⟩
  | array element size =>
      cases size with
      | none =>
          cases leaves
      | some n =>
          cases allowed
  | tuple components =>
      cases leaves

end DeclaredType

namespace ScalarType

/-- Scalars other than bytes and texts are encoded in a word. -/
theorem length_of_encode?
    {type : ScalarType}
    (notBytes : type ≠ .bytes)
    (notString : type ≠ .string)
    (valid : type.isValid = true)
    {v : Value}
    {data : Octets}
    (encoded : Encoding.encode? type.abiType v = some data) :
    type.abiType.isDynamic = false ∧ data.length = 32 := by
  cases type with
  | uint width =>
      rw [abiType, Encoding.encode?] at encoded
      exact ⟨rfl, Encoding.length_of_integer? encoded⟩
  | int width =>
      rw [abiType, Encoding.encode?] at encoded
      exact ⟨rfl, Encoding.length_of_integer? encoded⟩
  | address =>
      obtain ⟨bytes, isAddress, written⟩ := Encoding.encode?_address_eq_some encoded
      rw [written, List.length_append, List.length_replicate,
        Encoding.length_of_addressBytes? isAddress]
      exact ⟨rfl, rfl⟩
  | bool =>
      obtain ⟨b, -, written⟩ := Encoding.encode?_bool_eq_some encoded
      rw [written]
      exact ⟨rfl, Encoding.length_word _⟩
  | fixedBytes size =>
      obtain ⟨bytes, -, atMost, written⟩ := Encoding.encode?_fixedBytes_eq_some encoded
      simp only [isValid, Bool.and_eq_true, decide_eq_true_eq] at valid
      rw [written, List.length_append, List.length_replicate]
      exact ⟨rfl, by omega⟩
  | bytes =>
      exact absurd rfl notBytes
  | string =>
      exact absurd rfl notString

end ScalarType

namespace DeclaredInput

/-- The declarations of an event without the marks. -/
def declarations (inputs : List DeclaredInput) : Declarations :=
  inputs.map fun input => (input.name, input.type)

def isHashed (input : DeclaredInput) : Bool :=
  input.indexed && input.type.leavesHash

/-- The type of the value that is decoded for a parameter. -/
def receivedType (input : DeclaredInput) : DeclaredType :=
  if input.isHashed then .scalar (.fixedBytes 32) else input.type

def received (inputs : List DeclaredInput) : Declarations :=
  inputs.map fun input => (input.name, input.receivedType)

/-- The declarations of the values in the topics or in the data. -/
def part (indexed : Bool) (inputs : List DeclaredInput) : Declarations :=
  received (inputs.filter (·.indexed = indexed))

def valuesOf (indexed : Bool) : List DeclaredInput → List Value → List Value
  | input :: inputs, v :: vs =>
      if input.indexed = indexed then v :: valuesOf indexed inputs vs
      else valuesOf indexed inputs vs
  | _, _ => []

/-- The topic that a parameter leaves: a word, or 32 bytes that are a hash. -/
def topic? (input : DeclaredInput) (v : Value) : Option Octets :=
  if input.isHashed then
    match v with
    | .bytes hash => if hash.length = 32 then some hash else none
    | _ => none
  else Encoding.encode? input.type.abiType (input.type.positional v)

/-- The topics that the indexed parameters leave. -/
def topics? : List DeclaredInput → List Value → Option (List Octets)
  | input :: inputs, v :: vs =>
      if input.indexed then do
        let topic ← input.topic? v
        let topics ← topics? inputs vs
        return topic :: topics
      else topics? inputs vs
  | _, _ => some []

/-- The data that the other parameters leave. -/
def data? (inputs : List DeclaredInput) (vs : List Value) : Option Octets :=
  DeclaredType.encoding? (part false inputs) (valuesOf false inputs vs)

/-- An event parameter has the name, the type and the mark of a declared one. -/
structure Declares
    (input : DeclaredInput)
    (parameter : EventParameter) : Prop where
  name : parameter.name = input.name
  type : parameter.type = input.type.text
  components : input.type.Has parameter.components
  indexed : parameter.indexed = input.indexed

/-- Event parameters are declared by as many inputs, in order. -/
def Declare : List DeclaredInput → List EventParameter → Prop
  | [], [] => True
  | input :: inputs, parameter :: parameters =>
      input.Declares parameter ∧ Declare inputs parameters
  | _, _ => False

/-- What holds of a hash and of the type of a parameter holds of the type that is decoded. -/
theorem receivedType_of_type
    {motive : DeclaredType → Prop}
    (ofHash : motive (.scalar (.fixedBytes 32)))
    {input : DeclaredInput}
    (ofType : motive input.type) :
    motive input.receivedType := by
  rw [receivedType]
  split
  · exact ofHash
  · exact ofType

/-- A topic is the encoding of the value that is decoded from it. -/
theorem topic?_eq_encode?
    {input : DeclaredInput}
    {v : Value}
    (holds : input.receivedType.holds v = true) :
    input.topic? v =
      Encoding.encode? input.receivedType.abiType (input.receivedType.positional v) := by
  unfold topic?
  rw [receivedType] at holds ⊢
  by_cases hashed : input.isHashed = true
  · rw [if_pos hashed] at holds ⊢
    cases v with
    | bytes hash =>
        have isHash : hash.length = 32 := by
          simpa [DeclaredType.holds, ScalarType.holds] using holds
        simp [hashed, isHash, DeclaredType.abiType, ScalarType.abiType, DeclaredType.positional,
          Encoding.encode?]
    | _ =>
        cases holds
  · rw [if_neg hashed, if_neg hashed]

/-- What is decoded from a topic is a scalar that fits into a word. -/
theorem exists_scalar_receivedType
    {input : DeclaredInput}
    (isIndexed : input.indexed = true)
    (allowed : input.type.isFixedArray = false) :
    ∃ scalarType,
      input.receivedType = .scalar scalarType ∧ scalarType ≠ .bytes ∧ scalarType ≠ .string := by
  rw [receivedType, isHashed, isIndexed, Bool.true_and]
  by_cases leaves : input.type.leavesHash = true
  · rw [if_pos leaves]
    exact ⟨.fixedBytes 32, rfl, by decide, by decide⟩
  · rw [if_neg leaves]
    exact DeclaredType.exists_scalar_of_leavesHash allowed (by simpa using leaves)

/-- A topic is the static encoding of a value in a word. -/
theorem encode?_of_topic?
    {input : DeclaredInput}
    (isIndexed : input.indexed = true)
    (allowed : input.type.isFixedArray = false)
    (valid : input.type.isValid = true)
    {v : Value}
    (holds : input.receivedType.holds v = true)
    {topic : Octets}
    (left : input.topic? v = some topic) :
    Encoding.encode? input.receivedType.abiType (input.receivedType.positional v) = some topic ∧
      input.receivedType.abiType.isDynamic = false ∧ topic.length = 32 := by
  have receivedValid := receivedType_of_type (motive := (·.isValid = true)) rfl valid
  obtain ⟨scalarType, isScalar, notBytes, notString⟩ :=
    exists_scalar_receivedType isIndexed allowed
  rw [topic?_eq_encode? holds] at left
  refine ⟨left, ?_⟩
  rw [isScalar] at left receivedValid ⊢
  exact ScalarType.length_of_encode? notBytes notString receivedValid left

/-- An input of the one part stands in front of the others. -/
theorem part_cons_of_eq
    {indexed : Bool}
    {input : DeclaredInput}
    (inPart : input.indexed = indexed)
    (inputs : List DeclaredInput) :
    part indexed (input :: inputs) = (input.name, input.receivedType) :: part indexed inputs := by
  simp [part, received, inPart]

/-- An input of the other part is passed over. -/
theorem part_cons_of_ne
    {indexed : Bool}
    {input : DeclaredInput}
    (notInPart : input.indexed ≠ indexed)
    (inputs : List DeclaredInput) :
    part indexed (input :: inputs) = part indexed inputs := by
  simp [part, received, notInPart]

/-- What holds of all types that are decoded holds of those of each part. -/
theorem forall_mem_part
    {motive : DeclaredType → Prop}
    {inputs : List DeclaredInput}
    (each : ∀ input ∈ inputs, motive input.receivedType)
    (indexed : Bool) :
    ∀ declaration ∈ part indexed inputs, motive declaration.2 := by
  intro declaration member
  obtain ⟨input, isInput, rfl⟩ := List.mem_map.mp member
  exact each input (List.mem_filter.mp isInput).1

/-- Values that belong to all parameters belong to those of each part. -/
theorem allHold_part
    {inputs : List DeclaredInput}
    {vs : List Value}
    (hold : DeclaredType.allHold (received inputs) vs = true)
    (indexed : Bool) :
    DeclaredType.allHold (part indexed inputs) (valuesOf indexed inputs vs) = true := by
  induction inputs generalizing vs with
  | nil =>
      rfl
  | cons input inputs inductionHypothesis =>
      cases vs with
      | nil =>
          cases hold
      | cons v vs =>
          rw [received, List.map_cons, DeclaredType.allHold, Bool.and_eq_true] at hold
          have others := inductionHypothesis hold.2
          rw [valuesOf]
          by_cases inPart : input.indexed = indexed
          · rw [part_cons_of_eq inPart, if_pos inPart, DeclaredType.allHold, hold.1, others]
            rfl
          · rw [part_cons_of_ne inPart, if_neg inPart, others]

theorem exists_data?_of_lt
    {inputs : List DeclaredInput}
    {vs : List Value}
    (hold : DeclaredType.allHold (received inputs) vs = true)
    {bound : Nat}
    (isShort : ((data? inputs vs).getD []).length < bound) :
    ∃ data, data? inputs vs = some data ∧ data.length < bound :=
  DeclaredType.exists_encoding?_of_lt (allHold_part hold false) isShort

/-- The values of both parts are put back in the order of declaration. -/
theorem merge_parts
    {inputs : List DeclaredInput}
    {vs : List Value}
    (hold : DeclaredType.allHold (received inputs) vs = true)
    {keys : List Text}
    (asMany : keys.length = inputs.length) :
    EventDescription.merge (inputs.map (·.indexed)) (keys.map .text)
        (DeclaredType.allOrdered (part true inputs) (valuesOf true inputs vs))
        (DeclaredType.allOrdered (part false inputs) (valuesOf false inputs vs)) =
      .ok ((keys.map Key.text).zip (DeclaredType.allOrdered (received inputs) vs)) := by
  induction inputs generalizing vs keys with
  | nil =>
      rw [List.length_nil, List.length_eq_zero_iff] at asMany
      rw [asMany]
      rfl
  | cons input inputs inductionHypothesis =>
      obtain ⟨key, keys, rfl⟩ := List.exists_cons_of_length_eq_add_one asMany
      cases vs with
      | nil =>
          cases hold
      | cons v vs =>
          rw [received, List.map_cons, DeclaredType.allHold, Bool.and_eq_true] at hold
          have others := inductionHypothesis hold.2 (Nat.succ.inj asMany)
          rw [received, List.map_cons, List.map_cons, List.map_cons, List.map_cons,
            DeclaredType.allOrdered, List.zip_cons_cons, ← received]
          cases isIndexed : input.indexed with
          | true =>
              rw [part_cons_of_eq isIndexed, part_cons_of_ne (by simp [isIndexed]), valuesOf,
                valuesOf, if_pos isIndexed, if_neg (by simp [isIndexed]),
                DeclaredType.allOrdered, EventDescription.merge]
              simp only [Value.toKey?, others]
              rfl
          | false =>
              rw [part_cons_of_eq isIndexed, part_cons_of_ne (by simp [isIndexed]), valuesOf,
                valuesOf, if_pos isIndexed, if_neg (by simp [isIndexed]),
                DeclaredType.allOrdered, EventDescription.merge]
              simp only [Value.toKey?, others]
              rfl

end DeclaredInput

end ContractBindings
