import ContractBindings.Proofs.EventParameters
import Mathlib.Data.List.Forall2

namespace ContractBindings

/-!
# Receipts are decoded

The logs of a transaction are those of known events and others, in any order.
The events are decoded from their logs in the order of the logs, whether bytes
come as they are or as hexadecimal text.
-/

/-- A digest has the length of a word. -/
@[simp]
theorem Keccak.length_digest
    (message : Octets) :
    (digest message).length = 32 := by
  rfl

namespace Octets

/-- A value that gives bytes: the bytes themselves or their digits, of which a mark may
stand in front. -/
inductive GivenBy (bytes : Octets) : Value → Prop where
  | bytes : GivenBy bytes (.bytes bytes)
  | digits {digits : Text} : ofHex? digits = some bytes → GivenBy bytes (.text digits)
  | marked {digits : Text} :
      ofHex? digits = some bytes → GivenBy bytes (.text ("0x" ++ digits))
  | bigMarked {digits : Text} :
      ofHex? digits = some bytes → GivenBy bytes (.text ("0X" ++ digits))

/-- Digits do not begin with a mark. -/
theorem dropStart?_of_ofHex?
    {digits : Text}
    {bytes : Octets}
    (read : ofHex? digits = some bytes)
    {first second : CodePoint}
    (notDigit : second.hexDigit? = none) :
    Text.dropStart? digits [first, second] = none := by
  cases dropped : Text.dropStart? digits [first, second] with
  | none =>
      rfl
  | some rest =>
      rw [Text.eq_append_of_dropStart? dropped] at read
      simp [ofHex?, notDigit] at read

/-- Bytes are read from any value that gives them. -/
theorem GivenBy.ofHexOrValue
    {bytes : Octets}
    {v : Value}
    (given : bytes.GivenBy v) :
    ofHexOrValue v = .ok bytes := by
  cases given with
  | bytes =>
      rfl
  | digits read =>
      have noMark : Text.dropStart? _ "0x" = none := dropStart?_of_ofHex? read (by decide)
      have noBigMark : Text.dropStart? _ "0X" = none := dropStart?_of_ofHex? read (by decide)
      simp only [Octets.ofHexOrValue, noMark, noBigMark, Option.getD_none,
        ofSpacedHex?_eq_ofHex? read]
  | marked read =>
      simp only [Octets.ofHexOrValue, Text.dropStart?_append, Option.getD_some,
        ofSpacedHex?_eq_ofHex? read]
  | bigMarked read =>
      have noMark : ∀ digits, Text.dropStart? (Text.ofString "0X" ++ digits) "0x" = none := by
        intro digits
        rfl
      simp only [Octets.ofHexOrValue, noMark, Text.dropStart?_append, Option.getD_none,
        Option.getD_some, ofSpacedHex?_eq_ofHex? read]

end Octets

namespace EventEntry

/-- An event that is described has a signature, and its description has the hash. -/
theorem describe_eq_ok
    {event : EventEntry}
    {contract : Text}
    {description : EventDescription}
    (described : event.describe contract = .ok description) :
    ∃ types,
      (event.inputs.mapM fun parameter =>
          parameter.toParameter.canonicalType (event.place contract) parameter.marks) =
        .ok types ∧
      description =
        ⟨event.name, signatureOf event.name types,
          Octets.toHex (Keccak.digest (Text.utf8 (signatureOf event.name types))),
          event.inputs.map (·.describe)⟩ := by
  simp only [describe, hashedSignature, eventSignature, bind_eq_ok_iff, mapError_eq_ok_iff,
    pure_eq_ok_iff] at described
  obtain ⟨_, ⟨signature, ⟨types, ofInputs, rfl⟩, hash, ofSignature, rfl⟩, rfl⟩ := described
  rw [topicHash, hashText] at ofSignature
  split at ofSignature
  · cases ofSignature
    exact ⟨types, ofInputs, rfl⟩
  · cases ofSignature

/-- The signature of an event with declared parameters. -/
def declaredSignature (event : EventEntry) (inputs : List DeclaredInput) : Text :=
  signatureOf event.name (DeclaredType.signatures (DeclaredInput.declarations inputs))

/-- The hash with which the logs of an event with declared parameters begin. -/
def declaredHash (event : EventEntry) (inputs : List DeclaredInput) : Octets :=
  Keccak.digest (Text.utf8 (event.declaredSignature inputs))

/-- The description of an event is found by the hash with which its logs begin. -/
theorem describe_of_declare
    {event : EventEntry}
    {inputs : List DeclaredInput}
    (declared : DeclaredInput.Declare inputs event.inputs)
    (valid : ∀ input ∈ inputs, input.type.isValid = true)
    {contract : Text}
    {description : EventDescription}
    (described : event.describe contract = .ok description) :
    description.name = event.name ∧
      description.signatureHash = Octets.toHex (event.declaredHash inputs) ∧
        description.parameters = event.inputs.map (·.describe) := by
  obtain ⟨types, signed, rfl⟩ := describe_eq_ok described
  rw [DeclaredInput.mapM_canonicalType_of_declare valid declared] at signed
  cases signed
  exact ⟨rfl, rfl, rfl⟩

/-- An event with declared parameters is described, if UTF-8 can write its name. -/
theorem describe_isOk
    {event : EventEntry}
    {inputs : List DeclaredInput}
    (declared : DeclaredInput.Declare inputs event.inputs)
    (valid : ∀ input ∈ inputs, input.type.isValid = true)
    (isName : Text.isScalar event.name = true)
    (contract : Text) :
    ∃ description, event.describe contract = .ok description := by
  have isText :=
    DeclaredType.isScalar_signatureOf isName (DeclaredInput.declarations inputs)
  rw [describe, hashedSignature, eventSignature,
    DeclaredInput.mapM_canonicalType_of_declare valid declared]
  simp only [topicHash, hashText, if_pos isText, bind, Except.bind, mapError_ok, pure,
    Except.pure]
  exact ⟨_, rfl⟩

end EventEntry

namespace DeclaredType

/-- A well typed value whose encoding is not decoded under any descriptions of its type. -/
structure Undecodable (type : DeclaredType) (v : Value) : Prop where
  plain : type.Has none
  wellTyped : WellTyped type .absent v
  lost :
    ∃ data,
      encoding? [("x", type)] [v] = some data ∧
        ∀ descriptions, Describe [("x", type)] descriptions →
          ∃ refusal, Codec.decodeParameters descriptions data = .error refusal

/-- What the reader of types refuses is not decoded. -/
theorem undecodable_of_unread
    {type : DeclaredType}
    (plain : type.Has none)
    {v : Value}
    (wellTyped : WellTyped type .absent v)
    {failure : TypeFailure}
    (unread : AbiType.ofText type.signature = .error failure) :
    Undecodable type v := by
  obtain ⟨data, encoded⟩ := Option.isSome_iff_exists.mp (encoding?_isSome wellTyped.hold)
  exact ⟨plain, wellTyped, data, encoded, fun descriptions described =>
    decodeParameters_of_unread described unread data⟩

theorem undecodable_sizedArrays :
    Undecodable (sizedArrays (tenTo 4300)) (.list []) := by
  have notZero := Text.tenTo_ne_zero 4300
  have plain : (sizedArrays (tenTo 4300)).Has none := trivial
  exact undecodable_of_unread plain (wellTyped_sizedArrays notZero)
    (ofText_sizedArrays (Nat.le_refl _) notZero)

theorem undecodable_nestedArrays :
    Undecodable (nestedArrays 400) (.list []) := by
  have plain : (nestedArrays 400).Has none := by
    rw [← has_stem, (stem_nestedArrays 400).1]
    trivial
  exact undecodable_of_unread plain (wellTyped_nestedArrays 399)
    (ofText_nestedArrays (by decide))

/-- Bytes that no memory can hold are not decoded. -/
theorem undecodable_bytes :
    Undecodable (scalar .bytes) (.bytes (List.replicate (twoTo 63) 0)) := by
  have plain : (scalar .bytes).Has none := trivial
  have wellTyped : WellTyped (scalar .bytes) .absent (.bytes (List.replicate (twoTo 63) 0)) :=
    .of_fits trivial rfl rfl rfl
  have isLong : (List.replicate (twoTo 63) (0 : UInt8)).length = twoTo 63 :=
    List.length_replicate
  have tooLong := fun descriptions (described : Describe [("x", scalar .bytes)] descriptions) =>
    decodeParameters_tooLong described (by rw [isLong]; decide) (Nat.le_of_eq isLong.symm)
  exact ⟨plain, wellTyped, _, (tooLong _ wellTyped.described).1,
    fun descriptions described => ⟨_, (tooLong descriptions described).2⟩⟩

end DeclaredType

/-- A log of an event is one that the event emits with values of its parameters. -/
structure EventEntry.Emits
    (event : EventEntry)
    (inputs : List DeclaredInput)
    (values : List Value)
    (topics : List Octets)
    (data : Octets) : Prop where
  declared : DeclaredInput.Declare inputs event.inputs
  wellFormed : DeclaredInput.WellFormed inputs
  leaves : DeclaredInput.Leaves inputs values topics data

namespace EventRegistry

/-- A log has topics, each given in one form or another. -/
def HasTopics (log : Value) (topics : List Octets) : Prop :=
  ∃ entries given,
    log = .dict entries ∧ List.Forall₂ Octets.GivenBy topics given ∧
      (Entries.get? entries (.text "topics") = some (.list given) ∨
        Entries.get? entries (.text "topics") = some (.tuple given))

/-- A log has data, given in one form or another. -/
def HasData (log : Value) (data : Octets) : Prop :=
  ∃ entries given,
    log = .dict entries ∧ data.GivenBy given ∧
      Entries.get? entries (.text "data") = some given

/-- Topics are read in the forms in which they are given. -/
theorem mapM_ofHexOrValue
    {topics : List Octets}
    {given : List Value}
    (areGiven : List.Forall₂ Octets.GivenBy topics given) :
    given.mapM Octets.ofHexOrValue = .ok topics := by
  induction areGiven with
  | nil =>
      rfl
  | cons first _ inductionHypothesis =>
      rw [List.mapM_cons, first.ofHexOrValue, inductionHypothesis]
      rfl

/-- The topics of a log are read. -/
theorem HasTopics.read
    {log : Value}
    {topics : List Octets}
    (hasTopics : HasTopics log topics) :
    ∃ sequence given,
      logEntry log "topics" = .ok sequence ∧ Layout.members? sequence = .ok given ∧
        given.mapM Octets.ofHexOrValue = .ok topics := by
  obtain ⟨entries, given, rfl, areGiven, found⟩ := hasTopics
  have read := mapM_ofHexOrValue areGiven
  rcases found with found | found
  · exact ⟨.list given, given, by rw [logEntry, found], rfl, read⟩
  · exact ⟨.tuple given, given, by rw [logEntry, found], rfl, read⟩

theorem HasData.read
    {log : Value}
    {data : Octets}
    (hasData : HasData log data) :
    ∃ given, logEntry log "data" = .ok given ∧ Octets.ofHexOrValue given = .ok data := by
  obtain ⟨entries, given, rfl, isGiven, found⟩ := hasData
  exact ⟨given, by rw [logEntry, found], isGiven.ofHexOrValue⟩

/-- A log without topics is passed over. -/
theorem decodeEvent_of_noTopics
    (registry : EventRegistry)
    {log : Value}
    (noTopics : HasTopics log []) :
    registry.decodeEvent log = .ok none := by
  obtain ⟨sequence, given, found, members, read⟩ := noTopics.read
  simp only [decodeEvent, found, members, read, bind, Except.bind, mapError_ok]
  rfl

/-- A log that begins with the hash of no known event is passed over. -/
theorem decodeEvent_of_unknown
    {registry : EventRegistry}
    {log : Value}
    {first : Octets}
    {rest : List Octets}
    (hasTopics : HasTopics log (first :: rest))
    (unknown : registry.descriptions.get? (Octets.toHex first) = none) :
    registry.decodeEvent log = .ok none := by
  obtain ⟨sequence, given, found, members, read⟩ := hasTopics.read
  simp only [decodeEvent, found, members, read, unknown, bind, Except.bind, mapError_ok]
  rfl

/-- A log of a known event is decoded under the description of the event. -/
theorem decodeEvent_of_known
    {registry : EventRegistry}
    {log : Value}
    {first : Octets}
    {rest : List Octets}
    (hasTopics : HasTopics log (first :: rest))
    {data : Octets}
    (hasData : HasData log data)
    {description : EventDescription}
    (known : registry.descriptions.get? (Octets.toHex first) = some description) :
    registry.decodeEvent log =
      (description.decodeParameters rest data).map fun parameters =>
        some ⟨registry.classes.get? description.signatureHash, description.name, parameters⟩ := by
  obtain ⟨sequence, given, found, members, read⟩ := hasTopics.read
  obtain ⟨givenData, foundData, readData⟩ := hasData.read
  simp only [decodeEvent, found, members, read, known, foundData, readData, bind, Except.bind,
    mapError_ok]
  cases description.decodeParameters rest data <;> rfl

/-- The event that is decoded from a log of values. -/
def decoded
    (registry : EventRegistry)
    (event : EventEntry)
    (inputs : List DeclaredInput)
    (values : List Value) : DecodedEvent where
  className := registry.classes.get? (Octets.toHex (event.declaredHash inputs))
  name := event.name
  parameters :=
    ((DeclaredType.keys (DeclaredInput.declarations inputs)).map Key.text).zip
      (DeclaredType.allOrdered (DeclaredInput.received inputs) values)

/-- What a log is of: of no event that is known, or of one that is known by its own
description. -/
inductive LogOf (registry : EventRegistry) (log : Value) : Option DecodedEvent → Prop where
  | noTopics
      (hasTopics : HasTopics log []) :
      LogOf registry log none
  | unknown
      {first : Octets}
      {topics : List Octets}
      (hasTopics : HasTopics log (first :: topics))
      (absent : registry.descriptions.get? (Octets.toHex first) = none) :
      LogOf registry log none
  | known
      {event : EventEntry}
      {contract : Text}
      {description : EventDescription}
      (described : event.describe contract = .ok description)
      (registered : registry.descriptions.get? description.signatureHash = some description)
      {inputs : List DeclaredInput}
      {values : List Value}
      {topics : List Octets}
      {data : Octets}
      (emits : event.Emits inputs values topics data)
      (hasTopics : HasTopics log (event.declaredHash inputs :: topics))
      (hasData : HasData log data)
      (readable : ∀ input ∈ inputs, input.receivedType.isReadable = true)
      (holdable : data.length < twoTo 63) :
      LogOf registry log (some (registry.decoded event inputs values))

/-- A log is decoded to the event that it is of, if there is one. -/
theorem decodeEvent_of_logOf
    {registry : EventRegistry}
    {log : Value}
    {event : Option DecodedEvent}
    (logOf : registry.LogOf log event) :
    registry.decodeEvent log = .ok event := by
  cases logOf with
  | noTopics hasTopics =>
      exact registry.decodeEvent_of_noTopics hasTopics
  | unknown hasTopics absent =>
      exact decodeEvent_of_unknown hasTopics absent
  | known described registered emits hasTopics hasData readable holdable =>
      obtain ⟨sameName, sameHash, sameParameters⟩ :=
        EventEntry.describe_of_declare emits.declared emits.wellFormed.valid described
      rw [sameHash] at registered
      rw [decodeEvent_of_known hasTopics hasData registered,
        EventDescription.decodeParameters_of_leaves sameParameters emits.declared
          emits.wellFormed readable emits.leaves holdable, sameHash, sameName]
      rfl

/-- Every log of a known event is decoded to the name and the values of the event, in the
order of the logs, and all other logs are passed over. -/
theorem decodeEvents_of_logs
    {registry : EventRegistry}
    {logs : List Value}
    {events : List (Option DecodedEvent)}
    (each : List.Forall₂ registry.LogOf logs events) :
    (registry.decodeEvents logs).1 = .ok (events.filterMap id) := by
  induction each with
  | nil =>
      rfl
  | @cons log event logs events logOf _ inductionHypothesis =>
      rw [decodeEvents, decodeEvent_of_logOf logOf]
      cases event with
      | none =>
          exact inductionHypothesis
      | some event =>
          simp only [inductionHypothesis]
          rfl

/-- A registry of a single event. -/
def single (description : EventDescription) : EventRegistry :=
  ⟨[(description.signatureHash, description)], []⟩

theorem get?_single
    (description : EventDescription) :
    (single description).descriptions.get? description.signatureHash = some description := by
  simp [single, Keyed.get?]

/-- An event with a mark, a note and an indexed text, of which a hash is left. -/
def labelEvent : EventEntry where
  name := "E"
  inputs := [⟨⟨"flag", "bool", none, none⟩, true⟩, ⟨⟨"note", "string", none, none⟩, false⟩,
    ⟨⟨"label", "string", none, none⟩, true⟩]
  anonymous := false

/-- The declared parameters of the event. -/
def labelInputs : List DeclaredInput :=
  [⟨"flag", .scalar .bool, true⟩, ⟨"note", .scalar .string, false⟩,
    ⟨"label", .scalar .string, true⟩]

theorem declare_labelInputs :
    DeclaredInput.Declare labelInputs labelEvent.inputs :=
  ⟨⟨rfl, rfl, trivial, rfl⟩, ⟨rfl, rfl, trivial, rfl⟩, ⟨rfl, rfl, trivial, rfl⟩, trivial⟩

theorem wellFormed_labelInputs :
    DeclaredInput.WellFormed labelInputs :=
  ⟨by decide, by decide, by decide, by decide⟩

/-- The values of a log of the event, with what is left of the indexed text. -/
def labelValues : List Value :=
  [.bool true, .text "hi", .bytes (List.replicate 32 7)]

/-- The topics of a log of the event behind its hash. -/
def labelTopics : List Octets :=
  [Encoding.word 1, List.replicate 32 7]

theorem exists_emits_labelEvent :
    ∃ data, labelEvent.Emits labelInputs labelValues labelTopics data ∧ data.length < twoTo 63 := by
  have hold : DeclaredType.allHold (DeclaredInput.received labelInputs) labelValues = true := by
    decide
  have isShort : ((DeclaredInput.data? labelInputs labelValues).getD []).length < twoTo 63 := by
    decide +kernel
  obtain ⟨data, inData, holdable⟩ := DeclaredInput.exists_data?_of_lt hold isShort
  exact ⟨data, ⟨declare_labelInputs, wellFormed_labelInputs, hold, by rfl, inData⟩, holdable⟩

theorem exists_describe_labelEvent :
    ∃ description,
      labelEvent.describe "C" = .ok description ∧
        description.signatureHash = Octets.toHex (labelEvent.declaredHash labelInputs) := by
  obtain ⟨description, described⟩ :=
    EventEntry.describe_isOk declare_labelInputs wellFormed_labelInputs.valid (by decide) "C"
  exact ⟨description, described,
    (EventEntry.describe_of_declare declare_labelInputs wellFormed_labelInputs.valid
      described).2.1⟩

/-- A log of the event, with topics and data in different forms. -/
def labelLog (data : Octets) : Value :=
  .dict
    [(.text "topics",
      .list [.bytes (labelEvent.declaredHash labelInputs),
        .text ("0x" ++ Octets.toHex (Encoding.word 1)), .bytes (List.replicate 32 7)]),
      (.text "data", .text (Octets.toHex data))]

theorem hasTopics_labelLog
    (data : Octets) :
    HasTopics (labelLog data) (labelEvent.declaredHash labelInputs :: labelTopics) :=
  ⟨_, _, rfl, .cons .bytes (.cons (.marked (Octets.ofHex?_toHex _)) (.cons .bytes .nil)), .inl rfl⟩

theorem hasData_labelLog
    (data : Octets) :
    HasData (labelLog data) data :=
  ⟨_, _, rfl, .digits (Octets.ofHex?_toHex data), rfl⟩

/-- A log of one event is decoded between logs of no event. -/
theorem decodeEvents_of_logs_labelEvent :
    ∃ description data,
      labelEvent.describe "C" = .ok description ∧
        ((single description).decodeEvents
          [.dict [(.text "topics", .list [])], labelLog data,
            .dict [(.text "topics", .tuple [.bytes []])]]).1 =
          .ok
            [⟨none, "E",
              [(.text "flag", .bool true), (.text "note", .text "hi"),
                (.text "label", .bytes (List.replicate 32 7))]⟩] := by
  obtain ⟨description, described, sameHash⟩ := exists_describe_labelEvent
  obtain ⟨data, emits, holdable⟩ := exists_emits_labelEvent
  have noTopics : (single description).LogOf (.dict [(.text "topics", .list [])]) none :=
    .noTopics ⟨_, _, rfl, .nil, .inl rfl⟩
  have known : (single description).LogOf (labelLog data)
      (some ((single description).decoded labelEvent labelInputs labelValues)) :=
    .known described (get?_single description) emits (hasTopics_labelLog data)
      (hasData_labelLog data) (by decide +kernel) holdable
  have unknown :
      (single description).LogOf (.dict [(.text "topics", .tuple [.bytes []])]) none := by
    refine .unknown ⟨_, _, rfl, .cons .bytes .nil, .inr rfl⟩ ?_
    have written :=
      Octets.length_of_ofHex? (Octets.ofHex?_toHex (labelEvent.declaredHash labelInputs))
    have differs : (Octets.toHex [] == description.signatureHash) = false := by
      rw [beq_eq_false_iff_ne, sameHash]
      intro same
      rw [← same, EventEntry.declaredHash, Keccak.length_digest] at written
      cases written
    simp [single, Keyed.get?, List.lookup_cons, differs]
  exact ⟨description, data, described,
    decodeEvents_of_logs (.cons noTopics (.cons known (.cons unknown .nil)))⟩

/-- An event with a parameter that is not indexed. -/
def plainEvent (type : DeclaredType) : EventEntry where
  name := "E"
  inputs := [⟨⟨"x", type.text, none, none⟩, false⟩]
  anonymous := false

/-- The declared parameter of the event. -/
def plainInputs (type : DeclaredType) : List DeclaredInput :=
  [⟨"x", type, false⟩]

/-- A log with topics and data as they are. -/
def rawLog (topics : List Octets) (data : Octets) : Value :=
  .dict [(.text "topics", .list (topics.map .bytes)), (.text "data", .bytes data)]

theorem isLog_rawLog
    (topics : List Octets)
    (data : Octets) :
    HasTopics (rawLog topics data) topics ∧ HasData (rawLog topics data) data := by
  have given : List.Forall₂ Octets.GivenBy topics (topics.map .bytes) :=
    List.forall₂_map_right_iff.mpr (List.forall₂_same.mpr fun topic _ => .bytes)
  exact ⟨⟨_, _, rfl, given, .inl rfl⟩, ⟨_, _, rfl, .bytes, rfl⟩⟩

/-- A log of the event. -/
def plainLog (type : DeclaredType) (data : Octets) : Value :=
  rawLog [(plainEvent type).declaredHash (plainInputs type)] data

theorem declare_plainInputs
    {type : DeclaredType}
    (plain : type.Has none) :
    DeclaredInput.Declare (plainInputs type) (plainEvent type).inputs :=
  ⟨⟨rfl, rfl, plain, rfl⟩, trivial⟩

/-- The event emits a log with a well typed value. -/
theorem emits_plainEvent
    {type : DeclaredType}
    (plain : type.Has none)
    {v : Value}
    (wellTyped : DeclaredType.WellTyped type .absent v)
    {data : Octets}
    (encoded : DeclaredType.encoding? [("x", type)] [v] = some data) :
    (plainEvent type).Emits (plainInputs type) [v] [] data := by
  have valid : type.isValid = true := by
    simpa [DeclaredType.allValid] using wellTyped.valid
  have distinct : type.hasDistinctKeys = true := by
    simpa [DeclaredType.allDistinctKeys] using wellTyped.distinct
  have oneKey :
      DeclaredType.keys (DeclaredInput.declarations (plainInputs type)) = [Text.ofString "x"] := by
    rfl
  exact ⟨declare_plainInputs plain,
    ⟨by simpa [plainInputs] using valid, by simp [plainInputs],
      by simpa [plainInputs] using distinct, by simp [oneKey]⟩,
    wellTyped.hold, rfl, encoded⟩

/-- A value that the codec does not decode leaves a log that is not decoded. -/
theorem decodeEvent_plainLog
    {type : DeclaredType}
    {v : Value}
    (undecodable : DeclaredType.Undecodable type v) :
    ∃ data,
      (plainEvent type).Emits (plainInputs type) [v] [] data ∧
        ∀ (registry : EventRegistry) contract description,
          (plainEvent type).describe contract = .ok description →
            registry.descriptions.get? description.signatureHash = some description →
              registry.decodeEvent (plainLog type data) =
                .error (.undecodable .data description.signature data) := by
  obtain ⟨plain, wellTyped, data, encoded, undecoded⟩ := undecodable
  have emits := emits_plainEvent plain wellTyped encoded
  refine ⟨data, emits, ?_⟩
  intro registry contract description described registered
  obtain ⟨sameName, sameHash, sameParameters⟩ :=
    EventEntry.describe_of_declare emits.declared emits.wellFormed.valid described
  rw [sameHash] at registered
  obtain ⟨refusal, refused⟩ :=
    undecoded _ (DeclaredInput.describe_others_of_declare emits.declared)
  obtain ⟨hasTopics, hasData⟩ :=
    isLog_rawLog [(plainEvent type).declaredHash (plainInputs type)] data
  rw [plainLog, decodeEvent_of_known hasTopics hasData registered,
    EventDescription.decodeParameters_eq_merge sameParameters, refused]
  rfl

/-- A log that a known event emits with a value is not decoded. -/
def Refuses (type : DeclaredType) (v : Value) : Prop :=
  ∃ description data,
    (plainEvent type).describe "C" = .ok description ∧
      (plainEvent type).Emits (plainInputs type) [v] [] data ∧
        ((single description).decodeEvents [plainLog type data]).1 =
          .error (.undecodable .data description.signature data)

/-- What the codec does not decode is not decoded from a log. -/
theorem refuses_of_undecodable
    {type : DeclaredType}
    {v : Value}
    (undecodable : DeclaredType.Undecodable type v) :
    Refuses type v := by
  obtain ⟨data, emits, notDecoded⟩ := decodeEvent_plainLog undecodable
  obtain ⟨description, described⟩ :=
    EventEntry.describe_isOk emits.declared emits.wellFormed.valid (by rfl) "C"
  refine ⟨description, data, described, emits, ?_⟩
  rw [decodeEvents, notDecoded _ "C" description described (get?_single description)]

/-- Beyond the limits of the reader and of memory, logs of known events are not decoded. -/
theorem decodeEvents_of_logs_beyond_limits :
    Refuses (DeclaredType.sizedArrays (tenTo 4300)) (.list []) ∧
      Refuses (DeclaredType.nestedArrays 400) (.list []) ∧
        Refuses (.scalar .bytes) (.bytes (List.replicate (twoTo 63) 0)) :=
  ⟨refuses_of_undecodable DeclaredType.undecodable_sizedArrays,
    refuses_of_undecodable DeclaredType.undecodable_nestedArrays,
    refuses_of_undecodable DeclaredType.undecodable_bytes⟩

end EventRegistry

end ContractBindings
