import ContractBindings.Proofs.Parts

namespace ContractBindings

/-!
# Encodings are decoded

Whatever the encoder writes under a standard type is read back by the decoder,
in the form in which decoded values come: sequences as tuples, addresses as
digits, bytes of a fixed size filled up.  Data that no memory can hold is left
out, since the decoder refuses the lengths in it.
-/

namespace AbiType

/-- Types are built from types without members, arrays and tuples. -/
@[elab_as_elim]
theorem inductionOnMembers
    {motive : AbiType → Prop}
    (uint : ∀ bits, motive (.uint bits))
    (int : ∀ bits, motive (.int bits))
    (fixedPoint : ∀ isSigned bits places, motive (.fixedPoint isSigned bits places))
    (bool : motive .bool)
    (address : motive .address)
    (fixedBytes : ∀ size, motive (.fixedBytes size))
    (bytes : motive .bytes)
    (string : motive .string)
    (array : ∀ element size, motive element → motive (.array element size))
    (tuple : ∀ members, (∀ member ∈ members, motive member) → motive (.tuple members))
    (type : AbiType) :
    motive type :=
  AbiType.rec uint int fixedPoint bool address fixedBytes bytes string array tuple
    (fun _ member => absurd member List.not_mem_nil)
    (fun _ _ first others _ member =>
      (List.mem_cons.mp member).elim (fun same => same ▸ first) (others _))
    type

mutual

/-- Types that the standard encoding has: numbers of at most a word, and neither
empty arrays of a fixed size nor empty tuples. -/
def isStandard : AbiType → Bool
  | .uint bits => 1 ≤ bits && bits ≤ 256
  | .int bits => 1 ≤ bits && bits ≤ 256
  | .fixedPoint _ _ _ => false
  | .fixedBytes size => size ≤ 32
  | .array element size => element.isStandard && size ≠ some 0
  | .tuple members => allStandard members && ! members.isEmpty
  | _ => true

def allStandard : List AbiType → Bool
  | [] => true
  | member :: members => member.isStandard && allStandard members

end

theorem allStandard_iff
    {types : List AbiType} :
    allStandard types = true ↔ ∀ type ∈ types, type.isStandard = true := by
  induction types with
  | nil =>
      simp [allStandard]
  | cons type types inductionHypothesis =>
      simp [allStandard, inductionHypothesis]

mutual

/-- The form in which an encoded value is decoded. -/
def received : AbiType → Value → Value
  | .address, v => .text ("0x" ++ Octets.toHex ((Encoding.addressBytes? v).getD []))
  | .fixedBytes size, .bytes b => .bytes (b ++ List.replicate (size - b.length) 0)
  | .array element _, v =>
      .tuple (((Encoding.sequence? v).getD []).map (received element))
  | .tuple members, v => .tuple (receivedAll members ((Encoding.sequence? v).getD []))
  | _, v => v

def receivedAll : List AbiType → List Value → List Value
  | member :: members, v :: vs => received member v :: receivedAll members vs
  | _, _ => []

end

/-- The elements of an array are received like the members of a tuple. -/
theorem receivedAll_replicate
    (element : AbiType)
    (vs : List Value) :
    receivedAll (List.replicate vs.length element) vs = vs.map (received element) := by
  induction vs with
  | nil =>
      rfl
  | cons v vs inductionHypothesis =>
      rw [List.length_cons, List.replicate_succ, receivedAll, inductionHypothesis,
        List.map_cons]

end AbiType

namespace Encoding

/-- Integers in the range of their type have an encoding, and nothing else has. -/
theorem integer?_eq_some
    {isSigned : Bool}
    {bits : Nat}
    {v : Value}
    {data : Octets}
    (encoded : integer? isSigned bits v = some data) :
    ∃ i,
      v = .int i ∧ (integerRange isSigned bits).1 ≤ i ∧
        i ≤ (integerRange isSigned bits).2 ∧ data = signedWord i := by
  cases v with
  | int i =>
      simp only [integer?, Option.ite_none_right_eq_some, Option.some.injEq] at encoded
      exact ⟨i, rfl, encoded.1.1, encoded.1.2, encoded.2.symm⟩
  | _ =>
      simp [integer?] at encoded

/-- An integer is encoded in a word. -/
theorem length_of_integer?
    {isSigned : Bool}
    {bits : Nat}
    {v : Value}
    {data : Octets}
    (encoded : integer? isSigned bits v = some data) :
    data.length = 32 := by
  obtain ⟨i, -, -, -, written⟩ := integer?_eq_some encoded
  rw [written, signedWord, length_word]

theorem encode?_bool_eq_some
    {v : Value}
    {data : Octets}
    (encoded : encode? .bool v = some data) :
    ∃ b, v = .bool b ∧ data = word (if b then 1 else 0) := by
  cases v with
  | bool b =>
      simp only [encode?, Option.some.injEq] at encoded
      exact ⟨b, rfl, encoded.symm⟩
  | _ =>
      simp [encode?] at encoded

/-- Twenty bytes have an encoding as an address. -/
theorem encode?_address_eq_some
    {v : Value}
    {data : Octets}
    (encoded : encode? .address v = some data) :
    ∃ bytes,
      addressBytes? v = some bytes ∧ data = List.replicate 12 0 ++ bytes := by
  simp only [encode?, Option.map_eq_some_iff] at encoded
  obtain ⟨bytes, isAddress, written⟩ := encoded
  exact ⟨bytes, isAddress, written.symm⟩

/-- No more bytes than the size have an encoding as bytes of a fixed size. -/
theorem encode?_fixedBytes_eq_some
    {size : Nat}
    {v : Value}
    {data : Octets}
    (encoded : encode? (.fixedBytes size) v = some data) :
    ∃ bytes,
      v = .bytes bytes ∧ bytes.length ≤ size ∧
        data = bytes ++ List.replicate (32 - bytes.length) 0 := by
  cases v with
  | bytes bytes =>
      simp only [encode?, Option.ite_none_right_eq_some, Option.some.injEq] at encoded
      exact ⟨bytes, rfl, encoded.1, encoded.2.symm⟩
  | _ =>
      simp [encode?] at encoded

/-- Byte strings have an encoding, and nothing else has. -/
theorem encode?_bytes_eq_some
    {v : Value}
    {data : Octets}
    (encoded : encode? .bytes v = some data) :
    ∃ bytes, v = .bytes bytes ∧ data = counted bytes := by
  cases v with
  | bytes bytes =>
      simp only [encode?, Option.some.injEq] at encoded
      exact ⟨bytes, rfl, encoded.symm⟩
  | _ =>
      simp [encode?] at encoded

/-- Texts without lone surrogates have an encoding, and nothing else has. -/
theorem encode?_string_eq_some
    {v : Value}
    {data : Octets}
    (encoded : encode? .string v = some data) :
    ∃ t,
      v = .text t ∧ Text.isScalar t = true ∧ data = counted (Text.utf8 t) := by
  cases v with
  | text t =>
      simp only [encode?, Option.ite_none_right_eq_some, Option.some.injEq] at encoded
      exact ⟨t, rfl, encoded.1, encoded.2.symm⟩
  | _ =>
      simp [encode?] at encoded

/-- The elements of an array are encoded like the members of a tuple. -/
theorem mapM_encode?_eq_encodeParts?
    (element : AbiType)
    (vs : List Value) :
    (vs.mapM fun v => (encode? element v).map (Part.mk element.isDynamic)) =
      encodeParts? (List.replicate vs.length element) vs := by
  induction vs with
  | nil =>
      rfl
  | cons v vs inductionHypothesis =>
      rw [List.mapM_cons, inductionHypothesis, List.length_cons, List.replicate_succ,
        encodeParts?]
      cases encode? element v <;> rfl

/-- An array has an encoding if its elements have, and if they are as many as
the type says. -/
theorem encode?_array_eq_some
    {element : AbiType}
    {size : Option Nat}
    {v : Value}
    {data : Octets}
    (encoded : encode? (.array element size) v = some data) :
    ∃ vs parts,
      sequence? v = some vs ∧
        encodeParts? (List.replicate vs.length element) vs = some parts ∧
          ((size = none ∧ data = word vs.length ++ Part.assemble parts) ∨
            (size = some vs.length ∧ data = Part.assemble parts)) := by
  simp only [encode?, Option.bind_eq_bind, Option.bind_eq_some_iff] at encoded
  obtain ⟨vs, isSequence, parts, elements, sized⟩ := encoded
  rw [mapM_encode?_eq_encodeParts?] at elements
  refine ⟨vs, parts, isSequence, elements, ?_⟩
  cases size with
  | none =>
      exact Or.inl ⟨rfl, by simpa using sized.symm⟩
  | some n =>
      simp only [Option.ite_none_right_eq_some, Option.some.injEq] at sized
      exact Or.inr ⟨by rw [sized.1], sized.2.symm⟩

theorem encode?_tuple_eq_some
    {members : List AbiType}
    {v : Value}
    {data : Octets}
    (encoded : encode? (.tuple members) v = some data) :
    ∃ vs parts,
      sequence? v = some vs ∧ encodeParts? members vs = some parts ∧
        data = Part.assemble parts := by
  simp only [encode?, Option.bind_eq_bind, Option.bind_eq_some_iff,
    Option.map_eq_some_iff] at encoded
  obtain ⟨vs, isSequence, parts, encodedParts, assembled⟩ := encoded
  exact ⟨vs, parts, isSequence, encodedParts, assembled.symm⟩

/-- A first value is encoded by the first type, the others by the others. -/
theorem encodeParts?_cons_eq_some
    {type : AbiType}
    {types : List AbiType}
    {vs : List Value}
    {parts : List Part}
    (encoded : encodeParts? (type :: types) vs = some parts) :
    ∃ v others encoding otherParts,
      vs = v :: others ∧ encode? type v = some encoding ∧
        encodeParts? types others = some otherParts ∧
          parts = ⟨type.isDynamic, encoding⟩ :: otherParts := by
  cases vs with
  | nil =>
      simp [encodeParts?] at encoded
  | cons v others =>
      simp only [encodeParts?, Option.bind_eq_bind, Option.bind_eq_some_iff,
        Option.some.injEq] at encoded
      obtain ⟨encoding, ofFirst, otherParts, ofOthers, rfl⟩ := encoded
      exact ⟨v, others, encoding, otherParts, rfl, ofFirst, ofOthers, rfl⟩

end Encoding

namespace Decoding

open Encoding

/-- A dynamic type counts for the one word of its offset. -/
theorem headWords_of_isDynamic
    {type : AbiType}
    (dynamic : type.isDynamic = true) :
    headWords type = 1 := by
  cases type with
  | array element size =>
      cases size with
      | none =>
          rfl
      | some n =>
          rw [AbiType.isDynamic] at dynamic
          simp [headWords, dynamic]
  | _ =>
      rfl

/-- Encodings under a type fill at least a word, and the head at least the words
that the type counts for. -/
def Fills (type : AbiType) : Prop :=
  ∀ v data, encode? type v = some data →
    32 ≤ data.length ∧
      32 * headWords type ≤ Part.headLength ⟨type.isDynamic, data⟩

/-- A type that counts for one word needs to fill no more than that. -/
theorem fills_of_headWords
    {type : AbiType}
    (counted : headWords type = 1)
    (atLeast : ∀ v data, encode? type v = some data → 32 ≤ data.length) :
    Fills type := by
  intro v data encoded
  have filled := atLeast v data encoded
  refine ⟨filled, ?_⟩
  rw [counted, Part.headLength]
  split
  · exact Nat.le_refl 32
  · exact filled

/-- Every member fills a word of the heads. -/
theorem length_le_headsLength
    {types : List AbiType}
    (fills : ∀ type ∈ types, Fills type)
    {vs : List Value}
    {parts : List Part}
    (encoded : encodeParts? types vs = some parts) :
    32 * types.length ≤ Part.headsLength parts := by
  induction types generalizing vs parts with
  | nil =>
      simp
  | cons type types inductionHypothesis =>
      obtain ⟨v, others, encoding, otherParts, rfl, ofFirst, ofOthers, rfl⟩ :=
        encodeParts?_cons_eq_some encoded
      have first := (fills type (by simp) v encoding ofFirst).1
      have rest := inductionHypothesis (fun other member => fills other (by simp [member]))
        ofOthers
      have inHead : 32 ≤ Part.headLength ⟨type.isDynamic, encoding⟩ := by
        rw [Part.headLength]
        split
        · exact Nat.le_refl 32
        · exact first
      rw [Part.headsLength, List.length_cons]
      omega

/-- Arrays fill the words that they count for, if their elements do. -/
theorem fills_array
    {element : AbiType}
    {size : Option Nat}
    (fills : Fills element)
    (notEmpty : size ≠ some 0) :
    Fills (.array element size) := by
  intro v data encoded
  obtain ⟨vs, parts, -, encodedParts, sized⟩ := encode?_array_eq_some encoded
  have filled := length_le_headsLength
    (fun type member => (List.eq_of_mem_replicate member) ▸ fills) encodedParts
  rw [List.length_replicate] at filled
  have whole := Part.length_assemble parts
  rcases sized with ⟨isNone, written⟩ | ⟨isSize, written⟩
  · subst isNone
    rw [written]
    refine ⟨by simp, ?_⟩
    rw [headWords_of_isDynamic rfl, AbiType.isDynamic]
    exact Nat.le_refl 32
  · subst isSize
    rw [written]
    have hasElement : vs.length ≠ 0 := by
      intro isZero
      exact notEmpty (by rw [isZero])
    refine ⟨by omega, ?_⟩
    by_cases dynamic : element.isDynamic = true
    · simp [headWords, Part.headLength, AbiType.isDynamic, dynamic]
    · simp only [headWords, Part.headLength, AbiType.isDynamic, dynamic, Bool.false_eq_true,
        ↓reduceIte]
      omega

/-- Tuples fill the one word that they count for, if their members fill theirs. -/
theorem fills_tuple
    {members : List AbiType}
    (fills : ∀ member ∈ members, Fills member)
    (notEmpty : members ≠ []) :
    Fills (.tuple members) := by
  refine fills_of_headWords (by rfl) ?_
  intro v data encoded
  obtain ⟨vs, parts, -, encodedParts, rfl⟩ := encode?_tuple_eq_some encoded
  have filled := length_le_headsLength fills encodedParts
  have hasMember := List.length_pos_iff.mpr notEmpty
  have whole := Part.length_assemble parts
  omega

/-- Encodings under a standard type fill the words that the type counts for. -/
theorem fills_of_isStandard
    (type : AbiType)
    (standard : type.isStandard = true) :
    Fills type := by
  induction type using AbiType.inductionOnMembers with
  | uint bits =>
      refine fills_of_headWords (by rfl) ?_
      intro v data encoded
      rw [encode?] at encoded
      exact Nat.le_of_eq (length_of_integer? encoded).symm
  | int bits =>
      refine fills_of_headWords (by rfl) ?_
      intro v data encoded
      rw [encode?] at encoded
      exact Nat.le_of_eq (length_of_integer? encoded).symm
  | fixedPoint isSigned bits places =>
      -- No type of the standard is a fixed point number.
      cases standard
  | bool =>
      refine fills_of_headWords (by rfl) ?_
      intro v data encoded
      obtain ⟨b, -, written⟩ := encode?_bool_eq_some encoded
      rw [written]
      simp
  | address =>
      refine fills_of_headWords (by rfl) ?_
      intro v data encoded
      obtain ⟨bytes, isAddress, written⟩ := encode?_address_eq_some encoded
      rw [written]
      simp [length_of_addressBytes? isAddress]
  | fixedBytes size =>
      refine fills_of_headWords (by rfl) ?_
      intro v data encoded
      obtain ⟨bytes, -, -, written⟩ := encode?_fixedBytes_eq_some encoded
      rw [written]
      simp
      omega
  | bytes =>
      refine fills_of_headWords (by rfl) ?_
      intro v data encoded
      obtain ⟨bytes, -, written⟩ := encode?_bytes_eq_some encoded
      rw [written, length_counted]
      omega
  | string =>
      refine fills_of_headWords (by rfl) ?_
      intro v data encoded
      obtain ⟨t, -, -, written⟩ := encode?_string_eq_some encoded
      rw [written, length_counted]
      omega
  | array element size inductionHypothesis =>
      simp only [AbiType.isStandard, Bool.and_eq_true, decide_eq_true_eq] at standard
      exact fills_array (inductionHypothesis standard.1) standard.2
  | tuple members inductionHypothesis =>
      simp only [AbiType.isStandard, Bool.and_eq_true, Bool.not_eq_true',
        AbiType.allStandard_iff] at standard
      refine fills_tuple
        (fun member isMember => inductionHypothesis member isMember (standard.1 member isMember)) ?_
      rintro rfl
      simp at standard

/-- Elements are taken like the members of a tuple of as many equal types. -/
theorem takeMany_eq_decodeMembers
    (element : AbiType)
    (start : Octets)
    (count : Nat)
    (data : Octets) :
    takeMany (part element.isDynamic start (decode element)) count data =
      decodeMembers start (List.replicate count element) data := by
  induction count generalizing data with
  | zero =>
      rfl
  | succ count inductionHypothesis =>
      simp only [takeMany, List.replicate_succ, decodeMembers, inductionHypothesis]

/-- The offsets of dynamic elements are checked like those of the members of a
tuple. -/
theorem checkOffsets_eq_walk
    {element : AbiType}
    (dynamic : element.isDynamic = true)
    (start : Octets)
    (headLength count : Nat)
    (data : Octets) :
    checkOffsets start headLength count data =
      walk start headLength (List.replicate count element) data := by
  induction count generalizing data with
  | zero =>
      rfl
  | succ count inductionHypothesis =>
      simp only [checkOffsets, List.replicate_succ, walk, dynamic, ↓reduceIte,
        inductionHypothesis]

/-- The elements of an array are read back from its parts. -/
theorem takeElements_assemble
    {element : AbiType}
    {count : Nat}
    {parts : List Part}
    {vs : List Value}
    (readBack : PartsReadBack (List.replicate count element) parts vs)
    (inHeads : 32 * count ≤ Part.headsLength parts)
    (fits : (Part.assemble parts).length < twoTo 256)
    (rest : Octets) :
    takeElements element.isDynamic (decode element) count (Part.assemble parts ++ rest) =
      .ok (.tuple vs, Part.tails parts ++ rest) := by
  have located := drop_assemble parts rest
  have whole := Part.length_assemble parts
  rw [whole] at fits
  have walked := readBack.walk_heads inHeads located fits (Part.tails parts ++ rest)
  have members := readBack.decodeMembers_heads located fits (Part.tails parts ++ rest)
  rw [← List.append_assoc, ← Part.assemble] at walked members
  have enough : ¬ (Part.assemble parts ++ rest).length < 32 * count := by
    rw [List.length_append]
    omega
  rw [takeElements, if_neg enough, takeMany_eq_decodeMembers, members]
  by_cases dynamic : element.isDynamic = true
  · rw [if_pos dynamic, checkOffsets_eq_walk dynamic, walked]
    rfl
  · rw [if_neg dynamic]
    rfl

/-- What is encoded under a type is read back, if memory can hold it. -/
def RoundTrips (type : AbiType) : Prop :=
  ∀ v data, encode? type v = some data → data.length < twoTo 63 →
    ReadsBack (decode type) ⟨type.isDynamic, data⟩ (type.received v)

/-- Members whose types are read back are read back together. -/
theorem partsReadBack_of_encodeParts?
    {types : List AbiType}
    (standard : ∀ type ∈ types, type.isStandard = true)
    (roundTrips : ∀ type ∈ types, RoundTrips type)
    {vs : List Value}
    {parts : List Part}
    (encoded : encodeParts? types vs = some parts)
    (holdable : ∀ part ∈ parts, part.encoding.length < twoTo 63) :
    PartsReadBack types parts (AbiType.receivedAll types vs) := by
  induction types generalizing vs parts with
  | nil =>
      cases vs with
      | nil =>
          cases encoded
          exact .nil
      | cons v vs =>
          simp [encodeParts?] at encoded
  | cons type types inductionHypothesis =>
      obtain ⟨v, others, encoding, otherParts, rfl, ofFirst, ofOthers, rfl⟩ :=
        encodeParts?_cons_eq_some encoded
      have fills := fills_of_isStandard type (standard type (by simp)) v encoding ofFirst
      refine .cons rfl ?_ (by simpa using (by omega : 0 < encoding.length)) fills.2 ?_
      · exact roundTrips type (by simp) v encoding ofFirst
          (holdable ⟨type.isDynamic, encoding⟩ (by simp))
      · exact inductionHypothesis
          (fun other member => standard other (by simp [member]))
          (fun other member => roundTrips other (by simp [member]))
          ofOthers
          (fun part member => holdable part (by simp [member]))

/-- The parts of what memory can hold are held, too. -/
theorem parts_holdable
    {parts : List Part}
    (holdable : (Part.assemble parts).length < twoTo 63) :
    ∀ part ∈ parts, part.encoding.length < twoTo 63 := by
  intro part member
  have bounded := Part.length_encoding_le member
  omega

theorem anyDynamic_replicate
    {element : AbiType}
    (static : element.isDynamic = false)
    (count : Nat) :
    AbiType.anyDynamic (List.replicate count element) = false := by
  induction count with
  | zero =>
      rfl
  | succ count inductionHypothesis =>
      rw [List.replicate_succ, AbiType.anyDynamic, static, inductionHypothesis]
      rfl

/-- Arrays of a type that is read back are read back. -/
theorem roundTrips_array
    {element : AbiType}
    {size : Option Nat}
    (standard : element.isStandard = true)
    (roundTrips : RoundTrips element) :
    RoundTrips (.array element size) := by
  intro v data encoded holdable
  obtain ⟨vs, parts, isSequence, encodedParts, sized⟩ := encode?_array_eq_some encoded
  have inHeads : 32 * vs.length ≤ Part.headsLength parts := by
    have filled := length_le_headsLength
      (fun type member =>
        (List.eq_of_mem_replicate member) ▸ fills_of_isStandard element standard)
      encodedParts
    rwa [List.length_replicate] at filled
  have whole := Part.length_assemble parts
  -- The elements are the whole encoding, or they stand behind their number.
  have assembledHoldable : (Part.assemble parts).length < twoTo 63 := by
    rcases sized with ⟨-, written⟩ | ⟨-, written⟩
    · rw [written, List.length_append] at holdable
      omega
    · rwa [written] at holdable
  have wider : twoTo 63 ≤ twoTo 256 := twoTo_mono (by omega)
  have readBack := partsReadBack_of_encodeParts?
    (fun type member => (List.eq_of_mem_replicate member) ▸ standard)
    (fun type member => (List.eq_of_mem_replicate member) ▸ roundTrips)
    encodedParts (parts_holdable assembledHoldable)
  rw [AbiType.receivedAll_replicate] at readBack
  have elements := takeElements_assemble readBack inHeads (by omega)
  have receives : AbiType.received (.array element size) v =
      .tuple (vs.map (AbiType.received element)) := by
    rw [AbiType.received, isSequence]
    rfl
  intro rest
  rw [receives]
  refine ⟨Part.tails parts ++ rest, ?_, ?_⟩
  · rcases sized with ⟨isNone, written⟩ | ⟨isSize, written⟩
    · subst isNone
      rw [written, decode, List.append_assoc, takeWord_word (by omega)]
      exact elements rest
    · subst isSize
      rw [written, decode]
      exact elements rest
  · intro static
    rcases sized with ⟨isNone, -⟩ | ⟨isSize, -⟩
    · subst isNone
      cases static
    · subst isSize
      rw [AbiType.isDynamic] at static
      rw [readBack.tails_eq_nil (anyDynamic_replicate static vs.length), List.nil_append]

theorem roundTrips_tuple
    {members : List AbiType}
    (standard : ∀ member ∈ members, member.isStandard = true)
    (roundTrips : ∀ member ∈ members, RoundTrips member) :
    RoundTrips (.tuple members) := by
  intro v data encoded holdable
  obtain ⟨vs, parts, isSequence, encodedParts, written⟩ := encode?_tuple_eq_some encoded
  rw [written] at holdable
  have wider : twoTo 63 ≤ twoTo 256 := twoTo_mono (by omega)
  have readBack := partsReadBack_of_encodeParts? standard roundTrips encodedParts
    (parts_holdable holdable)
  have receives : AbiType.received (.tuple members) v =
      .tuple (AbiType.receivedAll members vs) := by
    rw [AbiType.received, isSequence]
    rfl
  intro rest
  rw [receives, written]
  refine ⟨Part.tails parts ++ rest, ?_, ?_⟩
  · exact decode_tuple_assemble readBack (by omega) rest
  · intro static
    rw [AbiType.isDynamic] at static
    rw [readBack.tails_eq_nil static, List.nil_append]

/-- An integer is read back from its encoding. -/
theorem takeInteger_of_integer?
    {isSigned : Bool}
    {bits : Nat}
    (isWidth : 1 ≤ bits ∧ bits ≤ 256)
    {v : Value}
    {data : Octets}
    (encoded : integer? isSigned bits v = some data)
    (rest : Octets) :
    ∃ i, v = .int i ∧ takeInteger isSigned bits (data ++ rest) = .ok (i, rest) := by
  obtain ⟨i, isInt, atLeast, atMost, written⟩ := integer?_eq_some encoded
  refine ⟨i, isInt, ?_⟩
  rw [written]
  exact takeInteger_signedWord isWidth atLeast atMost rest

/-- What is encoded under a standard type is read back. -/
theorem roundTrips_of_isStandard
    (type : AbiType)
    (standard : type.isStandard = true) :
    RoundTrips type := by
  induction type using AbiType.inductionOnMembers with
  | uint bits =>
      intro v data encoded _ rest
      rw [encode?] at encoded
      simp only [AbiType.isStandard, Bool.and_eq_true, decide_eq_true_eq] at standard
      obtain ⟨i, isInt, taken⟩ := takeInteger_of_integer? standard encoded rest
      refine ⟨rest, ?_, fun _ => rfl⟩
      rw [isInt, decode, taken]
      rfl
  | int bits =>
      intro v data encoded _ rest
      rw [encode?] at encoded
      simp only [AbiType.isStandard, Bool.and_eq_true, decide_eq_true_eq] at standard
      obtain ⟨i, isInt, taken⟩ := takeInteger_of_integer? standard encoded rest
      refine ⟨rest, ?_, fun _ => rfl⟩
      rw [isInt, decode, taken]
      rfl
  | fixedPoint isSigned bits places =>
      cases standard
  | bool =>
      intro v data encoded _ rest
      obtain ⟨b, isBool, written⟩ := encode?_bool_eq_some encoded
      refine ⟨rest, ?_, fun _ => rfl⟩
      rw [written, isBool, decode, takeBool_word]
      rfl
  | address =>
      intro v data encoded _ rest
      obtain ⟨bytes, isAddress, written⟩ := encode?_address_eq_some encoded
      refine ⟨rest, ?_, fun _ => rfl⟩
      rw [written, decode, takeAddress_append (length_of_addressBytes? isAddress),
        AbiType.received, isAddress]
      rfl
  | fixedBytes size =>
      intro v data encoded _ rest
      obtain ⟨bytes, isBytes, atMost, written⟩ := encode?_fixedBytes_eq_some encoded
      simp only [AbiType.isStandard, decide_eq_true_eq] at standard
      refine ⟨rest, ?_, fun _ => rfl⟩
      rw [written, isBytes, decode, takeFixedBytes_append atMost standard]
      rfl
  | bytes =>
      intro v data encoded holdable rest
      obtain ⟨bytes, isBytes, written⟩ := encode?_bytes_eq_some encoded
      rw [written, length_counted] at holdable
      refine ⟨rest, ?_, fun _ => rfl⟩
      rw [written, isBytes, decode, takeBytes_counted (by omega)]
      rfl
  | string =>
      intro v data encoded holdable rest
      obtain ⟨t, isText, scalar, written⟩ := encode?_string_eq_some encoded
      rw [written, length_counted] at holdable
      refine ⟨rest, ?_, fun _ => rfl⟩
      rw [written, isText, decode, takeText_counted scalar (by omega)]
      rfl
  | array element size inductionHypothesis =>
      simp only [AbiType.isStandard, Bool.and_eq_true] at standard
      exact roundTrips_array standard.1 (inductionHypothesis standard.1)
  | tuple members inductionHypothesis =>
      simp only [AbiType.isStandard, Bool.and_eq_true, AbiType.allStandard_iff] at standard
      exact roundTrips_tuple standard.1 fun member isMember =>
        inductionHypothesis member isMember (standard.1 member isMember)

end Decoding

end ContractBindings
