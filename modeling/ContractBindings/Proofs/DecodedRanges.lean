import ContractBindings.Codec.Parameters
import ContractBindings.Proofs.EncodingRoundTrip
import ContractBindings.Proofs.Steps

namespace ContractBindings

/-!
# Ranges of decoded values

Whatever the data is, a value that is decoded from it lies in the range of its type.
One lemma for each kind of word says so for scalars; the parts of arrays and tuples
are decoded one after another, some of them at an offset, and each of them is decoded
under its own type.
-/

namespace AbiType

mutual

/-- The values that decoding can give for a type.  An address is twenty bytes in
hexadecimal digits, and arrays and tuples are sequences. -/
def Yields : AbiType → Value → Prop
  | .uint bits, .int i => 0 ≤ i ∧ i < twoTo bits
  | .int bits, .int i => -(twoTo (bits - 1) : Int) ≤ i ∧ i < twoTo (bits - 1)
  | .fixedPoint _ _ _, .decimal _ => True
  | .bool, .bool _ => True
  | .address, .text t => ∃ bytes : Octets, bytes.length = 20 ∧ t = "0x" ++ Octets.toHex bytes
  | .fixedBytes size, .bytes b => b.length = min size 32
  | .bytes, .bytes _ => True
  | .string, .text _ => True
  | .array element _, .tuple vs => ∀ v ∈ vs, element.Yields v
  | .tuple members, .tuple vs => AllYield members vs
  | _, _ => False

/-- The values that decoding can give for types, one after another. -/
def AllYield : List AbiType → List Value → Prop
  | [], [] => True
  | member :: members, v :: vs => member.Yields v ∧ AllYield members vs
  | _, _ => False

end

theorem allYield_cons
    {member : AbiType}
    {members : List AbiType}
    {vs : List Value}
    (yielded : AllYield (member :: members) vs) :
    ∃ v others, vs = v :: others ∧ member.Yields v ∧ AllYield members others := by
  cases vs with
  | nil =>
      cases yielded
  | cons v vs =>
      exact ⟨v, vs, rfl, yielded⟩

theorem length_of_allYield
    {members : List AbiType}
    {vs : List Value}
    (yielded : AllYield members vs) :
    vs.length = members.length := by
  induction members generalizing vs with
  | nil =>
      cases vs with
      | nil =>
          rfl
      | cons v vs =>
          cases yielded
  | cons member members inductionHypothesis =>
      obtain ⟨v, others, rfl, -, ofOthers⟩ := allYield_cons yielded
      rw [List.length_cons, List.length_cons, inductionHypothesis ofOthers]

end AbiType

namespace Decoding

/-- A step behind a check that may be made succeeds with its own result. -/
theorem eq_ok_of_checked
    {isChecked : Bool}
    {check : Except ε Unit}
    {step : Except ε α}
    {result : α}
    (succeeds :
      (do
        if isChecked then
          check
        step) = .ok result) :
    step = .ok result := by
  cases isChecked with
  | false =>
      exact succeeds
  | true =>
      simp only [↓reduceIte, bind_eq_ok_iff] at succeeds
      obtain ⟨-, -, ran⟩ := succeeds
      exact ran

/-- A value of what is taken off the data stands before the same rest. -/
theorem exists_of_map_taken
    {step : Except Failure (Taken α)}
    {f : α → Value}
    {v : Value}
    {rest : Octets}
    (decoded : (step.map fun (a, left) => (f a, left)) = .ok (v, rest)) :
    ∃ a, step = .ok (a, rest) ∧ f a = v := by
  obtain ⟨⟨a, left⟩, taken, same⟩ := map_eq_ok_iff.mp decoded
  cases same
  exact ⟨a, taken, rfl⟩

theorem length_of_take
    {count : Nat}
    {data bytes rest : Octets}
    (taken : take count data = .ok (bytes, rest)) :
    bytes.length = count := by
  rw [take] at taken
  split at taken
  case isTrue =>
    cases taken
  case isFalse enough =>
    cases taken
    rw [List.length_take]
    omega

theorem range_of_takeInteger
    {isSigned : Bool}
    {bits : Nat}
    {data rest : Octets}
    {i : Int}
    (taken : takeInteger isSigned bits data = .ok (i, rest)) :
    if isSigned then -(twoTo (bits - 1) : Int) ≤ i ∧ i < twoTo (bits - 1)
    else 0 ≤ i ∧ i < twoTo bits := by
  rw [takeInteger, bind_eq_ok_iff] at taken
  obtain ⟨⟨n, left⟩, -, taken⟩ := taken
  cases isSigned with
  | true =>
      simp only [↓reduceIte] at taken ⊢
      split at taken
      case isTrue inRange =>
        cases taken
        exact inRange
      case isFalse =>
        cases taken
  | false =>
      simp only [Bool.false_eq_true, ↓reduceIte] at taken ⊢
      split at taken
      case isTrue below =>
        cases taken
        exact ⟨Int.natCast_nonneg n, Int.ofNat_lt.mpr below⟩
      case isFalse =>
        cases taken

theorem digits_of_takeAddress
    {data rest : Octets}
    {t : Text}
    (taken : takeAddress data = .ok (t, rest)) :
    ∃ bytes : Octets, bytes.length = 20 ∧ t = "0x" ++ Octets.toHex bytes := by
  rw [takeAddress, bind_eq_ok_iff] at taken
  obtain ⟨⟨bytes, left⟩, word, taken⟩ := taken
  have whole := length_of_take word
  dsimp only at taken
  split at taken
  case isTrue =>
    cases taken
    exact ⟨bytes.drop 12, by rw [List.length_drop, whole], rfl⟩
  case isFalse =>
    cases taken

theorem length_of_takeFixedBytes
    {size : Nat}
    {data bytes rest : Octets}
    (taken : takeFixedBytes size data = .ok (bytes, rest)) :
    bytes.length = min size 32 := by
  rw [takeFixedBytes, bind_eq_ok_iff] at taken
  obtain ⟨⟨whole, left⟩, word, taken⟩ := taken
  have wordLength := length_of_take word
  dsimp only at taken
  split at taken
  case isTrue =>
    cases taken
    rw [List.length_take, wordLength]
  case isFalse =>
    cases taken

/-- A part is decoded where it stands or at its offset. -/
theorem exists_of_part
    {isDynamic : Bool}
    {start data rest : Octets}
    {decodePart : Octets → Except Failure (Taken Value)}
    {v : Value}
    (decoded : part isDynamic start decodePart data = .ok (v, rest)) :
    ∃ place left, decodePart place = .ok (v, left) := by
  cases isDynamic with
  | false =>
      exact ⟨data, rest, decoded⟩
  | true =>
      simp only [part, ↓reduceIte, follow, bind_eq_ok_iff] at decoded
      obtain ⟨⟨offset, behind⟩, -, ⟨found, left⟩, ofPart, same⟩ := decoded
      cases same
      exact ⟨_, _, ofPart⟩

theorem forall_of_takeMany
    {one : Octets → Except Failure (Taken Value)}
    {motive : Value → Prop}
    (each : ∀ data v rest, one data = .ok (v, rest) → motive v)
    {count : Nat}
    {data rest : Octets}
    {vs : List Value}
    (taken : takeMany one count data = .ok (vs, rest)) :
    ∀ v ∈ vs, motive v := by
  induction count generalizing data vs with
  | zero =>
      cases taken
      simp
  | succ count inductionHypothesis =>
      simp only [takeMany, bind_eq_ok_iff] at taken
      obtain ⟨⟨first, behind⟩, ofFirst, ⟨others, left⟩, ofOthers, same⟩ := taken
      cases same
      rw [List.forall_mem_cons]
      exact ⟨each _ _ _ ofFirst, inductionHypothesis ofOthers⟩

/-- The elements of an array have what each decoded value has. -/
theorem forall_of_takeElements
    {isDynamic : Bool}
    {decodeElement : Octets → Except Failure (Taken Value)}
    {motive : Value → Prop}
    (each : ∀ data v rest, decodeElement data = .ok (v, rest) → motive v)
    {count : Nat}
    {start rest : Octets}
    {v : Value}
    (taken : takeElements isDynamic decodeElement count start = .ok (v, rest)) :
    ∃ vs, v = .tuple vs ∧ ∀ element ∈ vs, motive element := by
  rw [takeElements] at taken
  split at taken
  case isTrue =>
    cases taken
  case isFalse =>
    obtain ⟨⟨vs, left⟩, ofElements, same⟩ := bind_eq_ok_iff.mp (eq_ok_of_checked taken)
    cases same
    refine ⟨vs, rfl, forall_of_takeMany ?_ ofElements⟩
    intro data element behind decoded
    obtain ⟨place, after, ofElement⟩ := exists_of_part decoded
    exact each place element after ofElement

/-- The values that are decoded under a type are in its range. -/
def InRange (type : AbiType) : Prop :=
  ∀ data v rest, decode type data = .ok (v, rest) → type.Yields v

theorem allYield_of_decodeMembers
    {members : List AbiType}
    (each : ∀ member ∈ members, InRange member)
    {start data rest : Octets}
    {vs : List Value}
    (decoded : decodeMembers start members data = .ok (vs, rest)) :
    AbiType.AllYield members vs := by
  induction members generalizing data vs with
  | nil =>
      rw [decodeMembers] at decoded
      cases decoded
      trivial
  | cons member members inductionHypothesis =>
      simp only [decodeMembers, bind_eq_ok_iff] at decoded
      obtain ⟨⟨first, behind⟩, ofFirst, ⟨others, left⟩, ofOthers, same⟩ := decoded
      cases same
      obtain ⟨place, after, ofMember⟩ := exists_of_part ofFirst
      exact ⟨each member (by simp) place first after ofMember,
        inductionHypothesis (fun other isMember => each other (List.mem_cons_of_mem _ isMember))
          ofOthers⟩

/-- Every decoded value is in the range of its type. -/
theorem inRange
    (type : AbiType) :
    InRange type := by
  intro data v rest decoded
  -- The reader of a word checks its range, and the parts of a value are decoded by induction.
  induction type using AbiType.inductionOnMembers generalizing data v rest with
  | uint bits =>
      rw [decode] at decoded
      obtain ⟨i, taken, rfl⟩ := exists_of_map_taken decoded
      exact range_of_takeInteger taken
  | int bits =>
      rw [decode] at decoded
      obtain ⟨i, taken, rfl⟩ := exists_of_map_taken decoded
      exact range_of_takeInteger taken
  | fixedPoint isSigned bits places =>
      rw [decode] at decoded
      obtain ⟨i, -, rfl⟩ :=
        exists_of_map_taken (f := fun i => .decimal (Decimal.ofScaled i places)) decoded
      trivial
  | bool =>
      rw [decode] at decoded
      obtain ⟨b, -, rfl⟩ := exists_of_map_taken decoded
      trivial
  | address =>
      rw [decode] at decoded
      obtain ⟨t, taken, rfl⟩ := exists_of_map_taken decoded
      exact digits_of_takeAddress taken
  | fixedBytes size =>
      rw [decode] at decoded
      obtain ⟨b, taken, rfl⟩ := exists_of_map_taken decoded
      exact length_of_takeFixedBytes taken
  | bytes =>
      rw [decode] at decoded
      obtain ⟨b, -, rfl⟩ := exists_of_map_taken decoded
      trivial
  | string =>
      rw [decode] at decoded
      obtain ⟨t, -, rfl⟩ := exists_of_map_taken decoded
      trivial
  | array element size inductionHypothesis =>
      cases size with
      | some count =>
          rw [decode] at decoded
          obtain ⟨vs, rfl, each⟩ := forall_of_takeElements inductionHypothesis decoded
          exact each
      | none =>
          simp only [decode, bind_eq_ok_iff] at decoded
          obtain ⟨⟨count, start⟩, -, decoded⟩ := decoded
          obtain ⟨vs, rfl, each⟩ := forall_of_takeElements inductionHypothesis decoded
          exact each
  | tuple members inductionHypothesis =>
      rw [decode] at decoded
      obtain ⟨⟨vs, left⟩, ofMembers, same⟩ := bind_eq_ok_iff.mp (eq_ok_of_checked decoded)
      cases same
      exact allYield_of_decodeMembers inductionHypothesis ofMembers

end Decoding

namespace Codec

theorem allYield_of_decodeTypes
    {types : List AbiType}
    {data : Octets}
    {vs : List Value}
    (decoded : decodeTypes types data = .ok vs) :
    AbiType.AllYield types vs := by
  rw [decodeTypes] at decoded
  obtain ⟨⟨members, left⟩, ofMembers, same⟩ :=
    bind_eq_ok_iff.mp (Decoding.eq_ok_of_checked decoded)
  cases same
  exact Decoding.allYield_of_decodeMembers (fun member _ => Decoding.inRange member) ofMembers

/-- What is decoded under descriptions is restored, by the layout of each description, from
values in the ranges of the types. -/
theorem exists_of_decodeParameters
    {descriptions : List Description}
    {data : Octets}
    {values : List Value}
    (decoded : decodeParameters descriptions data = .ok values) :
    ∃ texts types vs,
      descriptions.mapM Description.ownType = .ok texts ∧
        texts.mapM AbiType.ofText = .ok types ∧ AbiType.AllYield types vs ∧
          (((Layout.ofDescriptions descriptions).zip vs).mapM fun (layout, v) =>
            (layout.restore v).mapError CodecFailure.fault) = .ok values := by
  rw [decodeParameters] at decoded
  cases hasTexts : descriptions.mapM Description.ownType with
  | error fault =>
      rw [hasTexts] at decoded
      cases fault <;> cases decoded
  | ok texts =>
      rw [hasTexts] at decoded
      simp only [bind_eq_ok_iff, decodeAs, readTypes, mapError_eq_ok_iff] at decoded
      obtain ⟨vs, ⟨types, read, ofData⟩, restored⟩ := decoded
      exact ⟨texts, types, vs, rfl, read, allYield_of_decodeTypes ofData, restored⟩

end Codec

end ContractBindings
