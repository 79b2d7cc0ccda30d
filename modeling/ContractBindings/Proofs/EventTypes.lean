import Mathlib.Data.List.Forall2
import ContractBindings.Proofs.AssemblySteps
import ContractBindings.Proofs.ExpressionValues
import ContractBindings.Proofs.ReceiptDecoding

namespace ContractBindings

/-!
# Decoded events inhabit their class

An event is generated a class whose fields are typed by what is decoded from a log:
the hash of an indexed parameter of which no more is left, and otherwise the declared
type.  Main statement: what is decoded from a log under the description of the event
has the keys of the class, in order, with values of the types of the fields.  The
values come from topics and data, in two queues; the two queues of their types are
taken apart and merged in the same way.
-/

namespace EventParameter

/-- A value that may be decoded for a parameter: the hash that is left of it, or a value
of the type that is declared. -/
def Receives (parameter : EventParameter) (place : Place) (v : Value) : Prop :=
  if parameter.indexed && isHashedWhenIndexed parameter.type then
    ∃ bytes, v = .bytes bytes ∧ bytes.length = 32
  else
    ∃ expression,
      TypeExpression.ofParameter (some place) parameter.marks parameter.toParameter =
          .ok expression ∧
        expression.holds v = true

theorem length_of_holds_hash
    {v : Value}
    (holds : (TypeExpression.named "Bytes32").holds v = true) :
    ∃ bytes, v = .bytes bytes ∧ bytes.length = 32 := by
  have digits : Text.ofString "Bytes32" = "Bytes" ++ Text.ofNat 32 := by
    decide +kernel
  cases v with
  | bytes bytes =>
      refine ⟨bytes, rfl, ?_⟩
      simp only [TypeExpression.holds, TypeExpression.namedHolds, Bool.or_eq_true,
        Bool.and_eq_true, decide_eq_true_eq] at holds
      rcases holds with (isBytes | isSized) | ⟨isAddress, -⟩
      · exact absurd isBytes (by decide)
      · rw [digits] at isSized
        exact (Text.ofNat_injective (List.append_cancel_left isSized)).symm
      · exact absurd isAddress (by decide)
  | _ =>
      simp only [TypeExpression.holds, TypeExpression.namedHolds, decide_eq_true_eq] at holds
      exact absurd holds (by decide)

/-- A value of the type of a field may be decoded for the parameter. -/
theorem receives_of_holds
    {parameter : EventParameter}
    {place : Place}
    {expression : TypeExpression}
    (typed : EventEntry.parameterType place parameter = .ok expression)
    {v : Value}
    (holds : expression.holds v = true) :
    parameter.Receives place v := by
  rw [EventEntry.parameterType] at typed
  rw [Receives]
  split at typed
  case isTrue isHash =>
    cases typed
    rw [if_pos isHash]
    exact length_of_holds_hash holds
  case isFalse notHash =>
    rw [if_neg notHash]
    exact ⟨expression, typed, holds⟩

theorem keys_description
    (parameters : List EventParameter) :
    Description.keys (parameters.map (·.description)) =
      .ok ((Parameter.keys (parameters.map (·.toParameter))).map .text) := by
  refine Description.keys_of_names ?_
  rw [List.mapM_map, List.map_map, List.map_map]
  refine mapM_eq_ok fun parameter _ => ?_
  obtain ⟨entries, described, hasName, -⟩ := parameter.description_eq_mapping
  rw [Function.comp_apply, described, Description.name, Description.required, hasName]
  rfl

/-- The description of a parameter that is not indexed denotes the type of its field. -/
theorem denotes_description
    {parameter : EventParameter}
    (notIndexed : parameter.indexed = false)
    {place : Place}
    {expression : TypeExpression}
    (typed : EventEntry.parameterType place parameter = .ok expression)
    (distinct : parameter.toParameter.hasDistinctKeys = true) :
    parameter.description.Denotes expression := by
  rw [EventEntry.parameterType, notIndexed] at typed
  exact Description.denotes_of_ofParameter typed distinct
    (by rfl : Description.componentsIn parameter.marks = .absent)

theorem denotes_topicDescription
    {parameter : EventParameter}
    (isIndexed : parameter.indexed = true)
    {place : Place}
    {expression : TypeExpression}
    (typed : EventEntry.parameterType place parameter = .ok expression)
    (distinct : parameter.toParameter.hasDistinctKeys = true) :
    parameter.topicDescription.Denotes expression := by
  rw [EventEntry.parameterType, isIndexed, Bool.true_and] at typed
  rw [topicDescription]
  split at typed
  case isTrue isHash =>
    cases typed
    rw [if_pos isHash]
    exact Description.denotes_hashed parameter.name
  case isFalse notHash =>
    rw [if_neg notHash]
    exact Description.denotes_of_ofParameter typed distinct
      (by rfl : Description.componentsIn parameter.marks = .absent)

end EventParameter

namespace EventDescription

/-- Values that are merged under keys inhabit their types, if they do in both queues. -/
theorem holds_of_merge
    {fields : List (Bool × TypeExpression)}
    {names : List Text}
    (asMany : names.length = fields.length)
    {indexed others : List Value}
    (indexedHold :
      List.Forall₂ (fun type v => type.holds v = true)
        ((fields.filter (·.1)).map (·.2)) indexed)
    (othersHold :
      List.Forall₂ (fun type v => type.holds v = true)
        ((fields.filter (! ·.1)).map (·.2)) others)
    {entries : List (Key × Value)}
    (merged : merge (fields.map (·.1)) (names.map .text) indexed others = .ok entries) :
    ∃ values,
      entries = (names.map Key.text).zip values ∧
        List.Forall₂ (fun type v => type.holds v = true) (fields.map (·.2)) values := by
  -- The mark of a field says from which of the two queues its value is taken.
  induction fields generalizing names indexed others entries with
  | nil =>
      rw [List.length_nil, List.length_eq_zero_iff] at asMany
      subst asMany
      cases merged
      exact ⟨[], rfl, .nil⟩
  | cons field fields inductionHypothesis =>
      obtain ⟨isIndexed, type⟩ := field
      cases names with
      | nil =>
          cases asMany
      | cons name names =>
          cases isIndexed with
          | true =>
              cases indexedHold with
              | cons first indexedHold =>
                  simp only [List.map_cons, merge, Value.toKey?, bind_eq_ok_iff,
                    pure_eq_ok_iff] at merged
                  obtain ⟨otherEntries, ofOthers, rfl⟩ := merged
                  obtain ⟨values, rfl, hold⟩ :=
                    inductionHypothesis (Nat.succ.inj asMany) indexedHold othersHold ofOthers
                  exact ⟨_ :: values, rfl, .cons first hold⟩
          | false =>
              cases othersHold with
              | cons first othersHold =>
                  simp only [List.map_cons, merge, Value.toKey?, bind_eq_ok_iff,
                    pure_eq_ok_iff] at merged
                  obtain ⟨otherEntries, ofOthers, rfl⟩ := merged
                  obtain ⟨values, rfl, hold⟩ :=
                    inductionHypothesis (Nat.succ.inj asMany) indexedHold othersHold ofOthers
                  exact ⟨_ :: values, rfl, .cons first hold⟩

/-- What is decoded of parameters stands under their keys and inhabits their types. -/
theorem holds_of_decodeParameters
    {description : EventDescription}
    {pairs : List (EventParameter × TypeExpression)}
    (described : description.parameters = (pairs.map (·.1)).map (·.describe))
    {place : Place}
    (typed : ∀ pair ∈ pairs, EventEntry.parameterType place pair.1 = .ok pair.2)
    (keysDistinct : (Parameter.keys ((pairs.map (·.1)).map (·.toParameter))).Nodup)
    (distinctWithin : ∀ pair ∈ pairs, pair.1.toParameter.hasDistinctKeys = true)
    {topics : List Octets}
    {data : Octets}
    {entries : Entries}
    (decoded : description.decodeParameters topics data = .ok entries) :
    ∃ values,
      entries =
          ((Parameter.keys ((pairs.map (·.1)).map (·.toParameter))).map Key.text).zip values ∧
        List.Forall₂ (fun type v => type.holds v = true) (pairs.map (·.2)) values := by
  rw [decodeParameters_eq_merge described, EventParameter.keys_description] at decoded
  simp only [bind_eq_ok_iff, mapError_eq_ok_iff, pure_eq_ok_iff, Except.ok.injEq] at decoded
  obtain ⟨indexed, ofTopics, others, ofData, _, rfl, merged, ofMerge, rfl⟩ := decoded
  let fields := pairs.map fun pair => (pair.1.indexed, pair.2)
  have topicsDenote :
      List.Forall₂ Description.Denotes
        (((pairs.map (·.1)).filter (·.indexed)).map (·.topicDescription))
        ((fields.filter (·.1)).map (·.2)) := by
    rw [List.filter_map, List.filter_map, List.map_map, List.map_map,
      List.forall₂_map_left_iff, List.forall₂_map_right_iff]
    refine List.forall₂_same.mpr fun pair member => ?_
    obtain ⟨inPairs, isIndexed⟩ := List.mem_filter.mp member
    exact EventParameter.denotes_topicDescription isIndexed (typed pair inPairs)
      (distinctWithin pair inPairs)
  have dataDenote :
      List.Forall₂ Description.Denotes
        (((pairs.map (·.1)).filter (! ·.indexed)).map (·.description))
        ((fields.filter (! ·.1)).map (·.2)) := by
    rw [List.filter_map, List.filter_map, List.map_map, List.map_map,
      List.forall₂_map_left_iff, List.forall₂_map_right_iff]
    refine List.forall₂_same.mpr fun pair member => ?_
    obtain ⟨inPairs, notIndexed⟩ := List.mem_filter.mp member
    exact EventParameter.denotes_description (by simpa using notIndexed) (typed pair inPairs)
      (distinctWithin pair inPairs)
  have flags : (pairs.map (·.1)).map (·.indexed) = fields.map (·.1) := by
    rw [List.map_map, List.map_map]
    rfl
  have asMany :
      (Parameter.keys ((pairs.map (·.1)).map (·.toParameter))).length = fields.length := by
    simp [Parameter.keys, fields]
  rw [flags] at ofMerge
  obtain ⟨values, rfl, hold⟩ :=
    holds_of_merge asMany (Codec.holds_of_decodeParameters topicsDenote ofTopics)
      (Codec.holds_of_decodeParameters dataDenote ofData) ofMerge
  refine ⟨values, Entries.ofList_zip keysDistinct values, ?_⟩
  rwa [List.map_map] at hold

end EventDescription

namespace EventRegistry

/-- The topics that are read off a log, in whatever form they are given. -/
def ReadsTopics (log : Value) (topics : List Octets) : Prop :=
  ∃ sequence given,
    logEntry log "topics" = .ok sequence ∧ Layout.members? sequence = .ok given ∧
      given.mapM Octets.ofHexOrValue = .ok topics

/-- What is decoded from a log of a known event is decoded under its description. -/
theorem decodeParameters_of_decodeEvent
    {registry : EventRegistry}
    {log : Value}
    {first : Octets}
    {rest : List Octets}
    (topics : ReadsTopics log (first :: rest))
    {description : EventDescription}
    (known : registry.descriptions.get? (Octets.toHex first) = some description)
    {outcome : Option DecodedEvent}
    (decoded : registry.decodeEvent log = .ok outcome) :
    ∃ data parameters,
      description.decodeParameters rest data = .ok parameters ∧
        outcome = some
          ⟨registry.classes.get? description.signatureHash, description.name, parameters⟩ := by
  obtain ⟨sequence, given, found, members, read⟩ := topics
  simp only [decodeEvent, bind_eq_ok_iff, mapError_eq_ok_iff, found, members, read,
    Except.ok.injEq, exists_eq_left', known, pure_eq_ok_iff] at decoded
  obtain ⟨data, -, parameters, ofParameters, rfl⟩ := decoded
  exact ⟨data, parameters, ofParameters, rfl⟩

/-- What is decoded from a log of an event has the keys of the class of the event, in
order, and each value is one that may be decoded for its parameter. -/
theorem holds_of_decodeEvent
    {event : EventEntry}
    {contract className : Text}
    {description : EventDescription}
    (described : event.describe contract = .ok description)
    {type : EventType}
    (typed : event.nominalType contract className = .ok type)
    (keysDistinct : (Parameter.keys (event.inputs.map (·.toParameter))).Nodup)
    (distinctWithin : ∀ input ∈ event.inputs, input.toParameter.hasDistinctKeys = true)
    {registry : EventRegistry}
    (registered : registry.descriptions.get? description.signatureHash = some description)
    {log : Value}
    {first : Octets}
    {rest : List Octets}
    (topics : ReadsTopics log (first :: rest))
    (isHash : Octets.toHex first = description.signatureHash)
    {outcome : Option DecodedEvent}
    (decoded : registry.decodeEvent log = .ok outcome) :
    ∃ found,
      outcome = some found ∧
        found.parameters.map (·.1) = type.parameters.map (fun field => Key.text field.1) ∧
          List.Forall₂ (fun input v => input.Receives (event.place contract) v) event.inputs
              (found.parameters.map (·.2)) ∧
            (TypeExpression.record type.parameters).holds (.dict found.parameters) = true := by
  rw [EventEntry.nominalType_of_describe described, map_eq_ok_iff] at typed
  obtain ⟨types, ofTypes, rfl⟩ := typed
  obtain ⟨pairs, inputs, rfl, each⟩ := exists_pairs_of_mapM ofTypes
  rw [← isHash] at registered
  obtain ⟨data, parameters, ofParameters, rfl⟩ :=
    decodeParameters_of_decodeEvent topics registered decoded
  obtain ⟨signed, -, isDescription⟩ := EventEntry.describe_eq_ok described
  have asPairs : description.parameters = (pairs.map (·.1)).map (·.describe) := by
    rw [isDescription, inputs]
  rw [inputs] at keysDistinct distinctWithin ⊢
  obtain ⟨values, rfl, hold⟩ :=
    EventDescription.holds_of_decodeParameters asPairs each keysDistinct
      (by simpa using distinctWithin) ofParameters
  generalize isKeys : Parameter.keys ((pairs.map (·.1)).map (·.toParameter)) = keys
  have asManyKeys : keys.length = (pairs.map (·.2)).length := by
    simp [← isKeys, Parameter.keys]
  have asManyValues : values.length = (pairs.map (·.2)).length :=
    hold.length_eq.symm
  refine ⟨_, rfl, ?_, ?_, ?_⟩
  · have ofFields : (keys.zip (pairs.map (·.2))).map (·.1) = keys :=
      List.map_fst_zip (Nat.le_of_eq asManyKeys)
    have ofEntries : ((keys.map Key.text).zip values).map (·.1) = keys.map Key.text :=
      List.map_fst_zip (by rw [List.length_map]; omega)
    rw [ofEntries, ← ofFields, List.map_map, ofFields]
    rfl
  · have ofEntries : ((keys.map Key.text).zip values).map (·.2) = values :=
      List.map_snd_zip (by rw [List.length_map]; omega)
    rw [List.forall₂_map_left_iff] at hold ⊢
    rw [ofEntries]
    refine ((List.forall₂_and_left _ _).mpr ⟨each, hold⟩).imp ?_
    exact fun pair v both => EventParameter.receives_of_holds both.1 both.2
  · exact TypeExpression.fieldsHold_zip asManyKeys hold

/-- The class of the event with a mark, a note and an indexed text. -/
def labelType (signatureHash : Text) : EventType :=
  ⟨"C_E", "E", signatureHash,
    [("flag", .named "bool"), ("note", .named "str"), ("label", .named "Bytes32")]⟩

/-- The decoded event has the mark from a topic, the note from the data and the hash. -/
theorem holds_of_decodeEvent_labelEvent :
    ∃ description data found,
      labelEvent.describe "C" = .ok description ∧
        labelEvent.nominalType "C" "C_E" = .ok (labelType description.signatureHash) ∧
          (single description).decodeEvent (labelLog data) = .ok (some found) ∧
            (TypeExpression.record (labelType description.signatureHash).parameters).holds
              (.dict found.parameters) = true := by
  obtain ⟨description, described, sameHash⟩ := exists_describe_labelEvent
  obtain ⟨data, emits, holdable⟩ := exists_emits_labelEvent
  have decoded := decodeEvent_of_logOf
    (.known described (get?_single description) emits (hasTopics_labelLog data)
      (hasData_labelLog data) (by decide +kernel) holdable)
  have typed : labelEvent.nominalType "C" "C_E" = .ok (labelType description.signatureHash) := by
    rw [EventEntry.nominalType_of_describe described]
    rfl
  obtain ⟨found, isFound, -, -, holds⟩ :=
    holds_of_decodeEvent described typed (by decide) (by decide) (get?_single description)
      (hasTopics_labelLog data).read sameHash.symm decoded
  rw [isFound] at decoded
  exact ⟨description, data, found, described, typed, decoded, holds⟩

end EventRegistry

end ContractBindings
