import ContractBindings.Proofs.ReadingLimits

namespace ContractBindings

/-!
# Parameters are read back

Parameters of declared types are encoded under their descriptions as a tuple of
the declared types, and the same descriptions read the encoding back.  What the
reader of types refuses and what no memory can hold is left out.
-/

namespace Decoding

/-- What is read as one tuple is read as its members. -/
theorem decodeTypes_of_decode
    {types : List AbiType}
    {data left : Octets}
    {vs : List Value}
    (decoded : decode (.tuple types) data = .ok (.tuple vs, left)) :
    Codec.decodeTypes types data = .ok vs := by
  rw [decode] at decoded
  rw [Codec.decodeTypes]
  split at decoded <;> rename_i isDynamic
  · rw [if_pos isDynamic]
    simp only [bind_eq_ok_iff, pure_eq_ok_iff] at decoded ⊢
    obtain ⟨checked, walked, taken, members, same⟩ := decoded
    cases same
    exact ⟨checked, walked, taken, members, rfl⟩
  · rw [if_neg isDynamic]
    simp only [bind_eq_ok_iff, pure_eq_ok_iff] at decoded ⊢
    obtain ⟨taken, members, same⟩ := decoded
    cases same
    exact ⟨taken, members, rfl⟩

end Decoding

namespace DeclaredType

/-- The types of readable declarations are read from descriptions. -/
theorem readTypes_signatures
    {parameters : Declarations}
    (valid : allValid parameters = true)
    (readable : ∀ parameter ∈ parameters, parameter.2.isReadable = true)
    (failure : CodecFailure) :
    Codec.readTypes failure (signatures parameters) = .ok (abiTypes parameters) := by
  have each : (signatures parameters).mapM AbiType.ofText = .ok (abiTypes parameters) := by
    rw [allValid_iff] at valid
    induction parameters with
    | nil =>
        rfl
    | cons parameter rest inductionHypothesis =>
        rw [signatures, List.mapM_cons,
          ofText_signature (valid parameter (by simp)) (readable parameter (by simp)),
          inductionHypothesis
            (fun other member => valid other (List.mem_cons_of_mem _ member))
            (fun other member => readable other (List.mem_cons_of_mem _ member))]
        rfl
  rw [Codec.readTypes, each]
  rfl

/-- Described values are encoded as a tuple of the declared types. -/
theorem encodeParameters_eq
    {parameters : Declarations}
    {descriptions : List Description}
    (described : Describe parameters descriptions)
    (valid : allValid parameters = true)
    (readable : ∀ parameter ∈ parameters, parameter.2.isReadable = true)
    {values : List Value}
    (hold : allHold parameters values = true) :
    ∃ data,
      encoding? parameters values = some data ∧
        Codec.encodeParameters descriptions values = .ok data := by
  obtain ⟨data, encoded⟩ := Option.isSome_iff_exists.mp (encoding?_isSome hold)
  have asMany : descriptions.length = values.length := by
    rw [length_of_describe described, length_of_allHold hold]
  refine ⟨data, encoded, ?_⟩
  rw [Codec.encodeParameters, if_neg (not_not_intro asMany), mapM_ownType_of_describe described]
  simp only [Codec.encodeAs]
  rw [ofDescriptions_of_describe described]
  rw [encoding?] at encoded
  simp only [mapM_prepare hold, readTypes_signatures valid readable, bind, Except.bind, encoded]
  rfl

/-- Data is decoded to the values whose received forms are read from it. -/
theorem decodeParameters_of_decodeTypes
    {parameters : Declarations}
    {descriptions : List Description}
    (described : Describe parameters descriptions)
    (valid : allValid parameters = true)
    (distinct : allDistinctKeys parameters = true)
    (readable : ∀ parameter ∈ parameters, parameter.2.isReadable = true)
    {values : List Value}
    (hold : allHold parameters values = true)
    {data : Octets}
    (decoded :
      Codec.decodeTypes (abiTypes parameters) data =
        .ok (AbiType.receivedAll (abiTypes parameters) (allPositional parameters values))) :
    Codec.decodeParameters descriptions data = .ok (allOrdered parameters values) := by
  rw [Codec.decodeParameters, mapM_ownType_of_describe described]
  simp only [Codec.decodeAs, readTypes_signatures valid readable, bind, Except.bind, decoded,
    ofDescriptions_of_describe described]
  exact mapM_restore distinct hold _

/-- The encoding of described values is decoded to the values. -/
theorem decodeParameters_eq
    {parameters : Declarations}
    {descriptions : List Description}
    (described : Describe parameters descriptions)
    (valid : allValid parameters = true)
    (distinct : allDistinctKeys parameters = true)
    (readable : ∀ parameter ∈ parameters, parameter.2.isReadable = true)
    {values : List Value}
    (hold : allHold parameters values = true)
    {data : Octets}
    (encoded : encoding? parameters values = some data)
    (holdable : data.length < twoTo 63) :
    Codec.decodeParameters descriptions data = .ok (allOrdered parameters values) := by
  have standard : ∀ type ∈ abiTypes parameters, type.isStandard = true :=
    AbiType.allStandard_iff.mp (allStandard_abiTypes fun parameter member =>
      isStandard_abiType parameter.2 (allValid_iff.mp valid parameter member))
  obtain ⟨left, decoded, -⟩ :=
    Decoding.roundTrips_tuple standard
      (fun type member => Decoding.roundTrips_of_isStandard type (standard type member))
      _ data encoded holdable []
  rw [List.append_nil] at decoded
  exact decodeParameters_of_decodeTypes described valid distinct readable hold
    (Decoding.decodeTypes_of_decode decoded)

/-- Bytes that no memory can hold have an encoding that is not decoded. -/
theorem decodeParameters_tooLong
    {name : Text}
    {descriptions : List Description}
    (described : Describe [(name, scalar .bytes)] descriptions)
    {bytes : Octets}
    (fits : bytes.length < twoTo 255)
    (tooLong : twoTo 63 ≤ bytes.length) :
    encoding? [(name, scalar .bytes)] [.bytes bytes] =
        some (Encoding.word 32 ++ Encoding.counted bytes) ∧
      Codec.decodeParameters descriptions (Encoding.word 32 ++ Encoding.counted bytes) =
        .error (.fault .overflow) := by
  have readable : (scalar .bytes).isReadable = true := by
    decide +kernel
  have types : ∀ failure, Codec.readTypes failure (signatures [(name, scalar .bytes)]) =
      .ok [.bytes] :=
    readTypes_signatures rfl (List.forall_mem_singleton.mpr readable)
  have wider : twoTo 255 ≤ twoTo 256 := twoTo_mono (by omega)
  have decoded : Codec.decodeTypes [.bytes] (Encoding.word 32 ++ Encoding.counted bytes) =
      .error .tooLong := by
    have offset := Decoding.takeWord_word (by decide : 32 < twoTo 256) (Encoding.counted bytes)
    have wordsTooLong : twoTo 63 ≤ Decoding.wholeWords bytes.length := by
      rw [Decoding.wholeWords]
      omega
    have refused := Decoding.takeBytes_tooLong (Nat.lt_of_lt_of_le fits wider) wordsTooLong []
    rw [List.append_nil] at refused
    have located :
        (Encoding.word 32 ++ Encoding.counted bytes).drop 32 = Encoding.counted bytes :=
      List.drop_left' (Encoding.length_word 32)
    have inData : 32 < (Encoding.word 32 ++ Encoding.counted bytes).length := by
      rw [List.length_append, Encoding.length_word, Encoding.length_counted]
      omega
    have dynamic : AbiType.anyDynamic [.bytes] = true := by
      rfl
    rw [Codec.decodeTypes, if_pos dynamic]
    simp only [Decoding.walk, AbiType.isDynamic, ↓reduceIte, offset, Decoding.checkOffset,
      Decoding.headWordsOfAll, Decoding.headWords, Nat.le_refl, inData, and_self,
      Decoding.decodeMembers, Decoding.part, Decoding.follow, Decoding.decode, located, refused,
      bind, Except.bind]
    rfl
  refine ⟨?_, ?_⟩
  · simp only [encoding?, abiTypes, abiType, ScalarType.abiType, allPositional, positional,
      Encoding.encode?, Encoding.sequence?, Encoding.encodeParts?, AbiType.isDynamic,
      Option.bind_eq_bind, Option.bind_some, Option.map_some, Option.some.injEq]
    simp [Encoding.Part.assemble, Encoding.Part.heads, Encoding.Part.headsLength,
      Encoding.Part.headLength, Encoding.Part.tails]
  · rw [Codec.decodeParameters, mapM_ownType_of_describe described]
    simp only [Codec.decodeAs, types, bind, Except.bind, decoded]
    rfl

/-- Encoded parameters are decoded to the values that were encoded, with every tuple
as a mapping in the order of its components. -/
theorem decodeParameters_encodeParameters
    {parameters : Declarations}
    {descriptions : List Description}
    (described : Describe parameters descriptions)
    (valid : allValid parameters = true)
    (distinct : allDistinctKeys parameters = true)
    (readable : ∀ parameter ∈ parameters, parameter.2.isReadable = true)
    {values : List Value}
    (hold : allHold parameters values = true) :
    ∃ data,
      Codec.encodeParameters descriptions values = .ok data ∧
        (data.length < twoTo 63 →
          Codec.decodeParameters descriptions data = .ok (allOrdered parameters values)) := by
  obtain ⟨data, asTuple, encoded⟩ := encodeParameters_eq described valid readable hold
  exact ⟨data, encoded, decodeParameters_eq described valid distinct readable hold asTuple⟩

/-- The description of a pair of a number and some texts. -/
def describedPair : Description :=
  .mapping [(.text "name", .text "pair"), (.text "type", .text "tuple")]
    (.listed
      [.mapping [(.text "name", .text "n"), (.text "type", .text "int")] .absent,
        .mapping [(.text "name", .text "texts"), (.text "type", .text "string[]")] .absent])

/-- A pair is decoded in the order of its components, whatever the order it came in. -/
theorem decodeParameters_encodeParameters_pair :
    ∃ data,
      Codec.encodeParameters [describedPair]
          [.dict [(.text "texts", .list [.text "x"]), (.text "n", .int (-1))]] =
        .ok data ∧
      Codec.decodeParameters [describedPair] data =
        .ok [.dict [(.text "n", .int (-1)), (.text "texts", .list [.text "x"])]] := by
  let pair : Declarations :=
    [("pair", tuple [("n", scalar (.int none)), ("texts", array (scalar .string) none)])]
  have described : Describe pair [describedPair] :=
    ⟨rfl, rfl, ⟨rfl, rfl, trivial, rfl, rfl, trivial, trivial⟩, trivial⟩
  have hold :
      allHold pair
        [.dict [(.text "texts", .list [.text "x"]), (.text "n", .int (-1))]] = true := by
    decide
  obtain ⟨data, encoded, decoded⟩ :=
    decodeParameters_encodeParameters described (by decide) (by decide) (by decide +kernel) hold
  have isShort :
      (Codec.encodeParameters [describedPair]
          [.dict [(.text "texts", .list [.text "x"]), (.text "n", .int (-1))]]).toOption.all
        (·.length < twoTo 63) = true := by
    decide +kernel
  rw [encoded] at isShort
  exact ⟨data, encoded, decoded (of_decide_eq_true isShort)⟩

/-- Beyond the limits of the reader and of memory, well typed values are not encoded, or
their encoding is not decoded. -/
theorem decodeParameters_encodeParameters_beyond_limits :
    (WellTyped (sizedArrays (tenTo 4300)) .absent (.list []) ∧
        Codec.encodeParameters [(sizedArrays (tenTo 4300)).describeAs .absent] [.list []] =
          .error (.fault .unreadableSize)) ∧
      (WellTyped (nestedArrays 400) .absent (.list []) ∧
        Codec.encodeParameters [(nestedArrays 400).describeAs .absent] [.list []] =
          .error (.fault .tooNested)) ∧
      (WellTyped (nestedTuples 200) (nestedComponents 200) (nestedRecord 200) ∧
        Codec.encodeParameters [(nestedTuples 200).describeAs (nestedComponents 200)]
            [nestedRecord 200] =
          .error (.fault .tooNested)) ∧
      ∃ data,
        WellTyped (scalar .bytes) .absent (.bytes (List.replicate (twoTo 63) 0)) ∧
          Codec.encodeParameters [(scalar .bytes).describeAs .absent]
              [.bytes (List.replicate (twoTo 63) 0)] =
            .ok data ∧
          Codec.decodeParameters [(scalar .bytes).describeAs .absent] data =
            .error (.fault .overflow) := by
  have notZero := Text.tenTo_ne_zero 4300
  have arrays := wellTyped_sizedArrays notZero
  have lists := wellTyped_nestedArrays 399
  have tuples := wellTyped_nestedTuples 200
  have bytes : WellTyped (scalar .bytes) .absent (.bytes (List.replicate (twoTo 63) 0)) :=
    .of_fits trivial rfl rfl rfl
  have isLong : (List.replicate (twoTo 63) (0 : UInt8)).length = twoTo 63 :=
    List.length_replicate
  obtain ⟨isEncoding, lost⟩ :=
    decodeParameters_tooLong bytes.described (by rw [isLong]; decide) (Nat.le_of_eq isLong.symm)
  obtain ⟨data, sameEncoding, encoded⟩ :=
    encodeParameters_eq bytes.described bytes.valid (by decide +kernel) bytes.hold
  rw [isEncoding] at sameEncoding
  cases sameEncoding
  refine ⟨⟨arrays, ?_⟩, ⟨lists, ?_⟩, ⟨tuples, ?_⟩, _, bytes, encoded, lost⟩
  · exact encodeParameters_longSize arrays (ofText_sizedArrays (Nat.le_refl _) notZero)
  · exact encodeParameters_tooNested lists (ofText_nestedArrays (by decide))
  · exact encodeParameters_tooNested tuples (ofText_nestedTuples (by decide))

end DeclaredType

end ContractBindings
