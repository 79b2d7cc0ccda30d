import ContractBindings.Proofs.DeclaredEvents

namespace ContractBindings

/-!
# Parameters of logs are read back

The parameters of an event are described with their marks.  What the event
leaves in topics and data is decoded under these descriptions, part by part, and
the values come back in the order in which the parameters are declared.
-/

namespace EventParameter

/-- The description that the decoder is told of an event parameter. -/
def description (parameter : EventParameter) : Description :=
  Description.ofValue parameter.describe

/-- The description by which an indexed parameter is decoded. -/
def topicDescription (parameter : EventParameter) : Description :=
  if isHashedWhenIndexed parameter.type then .hashed (.text parameter.name)
  else parameter.description

/-- A description has the name, the type, the components and the mark of the parameter. -/
theorem description_eq_mapping
    (parameter : EventParameter) :
    ∃ entries,
      parameter.description =
          .mapping entries (Parameter.describedComponents parameter.components) ∧
        Entries.get? entries (.text "name") = some (.text parameter.name) ∧
          Entries.get? entries (.text "type") = some (.text parameter.type) ∧
            Entries.get? entries (.text "indexed") = some (.bool parameter.indexed) := by
  have noComponents : Description.componentsIn parameter.marks = .absent := by
    rfl
  exact parameter.toParameter.ofValue_describeWith noComponents

/-- Indexed parameters are decoded from topics, the others are not. -/
theorem topicPart_description
    (parameter : EventParameter) :
    parameter.description.topicPart =
      .ok (if parameter.indexed then some parameter.topicDescription else none) := by
  obtain ⟨entries, described, hasName, hasType, hasMark⟩ := parameter.description_eq_mapping
  have isIndexed : parameter.description.isIndexed = .ok parameter.indexed := by
    rw [described, Description.isIndexed, hasMark]
    rfl
  have type : parameter.description.type = .ok (.text parameter.type) := by
    rw [described, Description.type, Description.required, hasType]
  have name : parameter.description.name = .ok (.text parameter.name) := by
    rw [described, Description.name, Description.required, hasName]
  cases indexed : parameter.indexed with
  | false =>
      rw [Description.topicPart, isIndexed, indexed]
      rfl
  | true =>
      have decoding : parameter.description.decoding = .ok parameter.topicDescription := by
        rw [Description.decoding, isIndexed, indexed, type, name, topicDescription]
        cases isHashed : isHashedWhenIndexed parameter.type <;>
          simp [Description.isHashedType, isHashed, bind, Except.bind, pure, Except.pure]
      rw [Description.topicPart, isIndexed, indexed, decoding]
      rfl

end EventParameter

namespace DeclaredType

/-- Descriptions describe declarations if the first one does, and the others do. -/
theorem describe_cons_iff
    {declaration : Text × DeclaredType}
    {rest : Declarations}
    {description : Description}
    {descriptions : List Description} :
    Describe (declaration :: rest) (description :: descriptions) ↔
      Describe [declaration] [description] ∧ Describe rest descriptions := by
  cases description <;> simp [Describe, and_assoc]

end DeclaredType

namespace DeclaredInput

/-- A declared parameter has the description of its type. -/
theorem Declares.describe
    {input : DeclaredInput}
    {parameter : EventParameter}
    (declared : input.Declares parameter) :
    DeclaredType.Describe [(input.name, input.type)] [parameter.description] := by
  obtain ⟨entries, described, hasName, hasType, -⟩ := parameter.description_eq_mapping
  rw [described, DeclaredType.Describe, hasName, hasType, declared.name, declared.type]
  exact ⟨rfl, rfl, input.type.fits_describedComponents _ declared.components, trivial⟩

/-- An indexed parameter is decoded by a description of what it leaves. -/
theorem Declares.describe_received
    {input : DeclaredInput}
    {parameter : EventParameter}
    (declared : input.Declares parameter)
    (isIndexed : input.indexed = true)
    (allowed : input.type.isFixedArray = false) :
    DeclaredType.Describe [(input.name, input.receivedType)] [parameter.topicDescription] := by
  rw [receivedType, isHashed, isIndexed, Bool.true_and, EventParameter.topicDescription,
    declared.type, DeclaredType.isHashedWhenIndexed_text allowed]
  split
  · have isWord : (DeclaredType.scalar (.fixedBytes 32)).text = "bytes32" := by
      decide +kernel
    rw [declared.name, Description.hashed, DeclaredType.Describe, isWord]
    exact ⟨rfl, rfl, trivial, trivial⟩
  · exact declared.describe

theorem declare_cons
    {input : DeclaredInput}
    {inputs : List DeclaredInput}
    {parameters : List EventParameter}
    (declared : Declare (input :: inputs) parameters) :
    ∃ parameter others,
      parameters = parameter :: others ∧ input.Declares parameter ∧ Declare inputs others := by
  cases parameters with
  | nil =>
      cases declared
  | cons parameter others =>
      exact ⟨parameter, others, rfl, declared⟩

theorem declare_nil
    {parameters : List EventParameter}
    (declared : Declare [] parameters) :
    parameters = [] := by
  cases parameters with
  | nil =>
      rfl
  | cons parameter others =>
      cases declared

theorem describe_of_declare
    {inputs : List DeclaredInput}
    {parameters : List EventParameter}
    (declared : Declare inputs parameters) :
    DeclaredType.Describe (declarations inputs) (parameters.map (·.description)) := by
  induction inputs generalizing parameters with
  | nil =>
      rw [declare_nil declared]
      trivial
  | cons input inputs inductionHypothesis =>
      obtain ⟨parameter, others, rfl, first, rest⟩ := declare_cons declared
      exact DeclaredType.describe_cons_iff.mpr ⟨first.describe, inductionHypothesis rest⟩

/-- The descriptions by which topics are decoded describe what is left in them. -/
theorem describe_topics_of_declare
    {inputs : List DeclaredInput}
    (allowed : ∀ input ∈ inputs, input.indexed = true → input.type.isFixedArray = false)
    {parameters : List EventParameter}
    (declared : Declare inputs parameters) :
    DeclaredType.Describe (part true inputs)
      ((parameters.filter (·.indexed)).map (·.topicDescription)) := by
  induction inputs generalizing parameters with
  | nil =>
      rw [declare_nil declared]
      trivial
  | cons input inputs inductionHypothesis =>
      obtain ⟨parameter, others, rfl, first, rest⟩ := declare_cons declared
      have described := inductionHypothesis
        (fun other member => allowed other (List.mem_cons_of_mem _ member)) rest
      by_cases isIndexed : input.indexed = true
      · rw [part_cons_of_eq isIndexed, List.filter_cons_of_pos (first.indexed.trans isIndexed)]
        exact DeclaredType.describe_cons_iff.mpr
          ⟨first.describe_received isIndexed (allowed input (by simp) isIndexed), described⟩
      · rw [part_cons_of_ne isIndexed, List.filter_cons_of_neg (first.indexed ▸ isIndexed)]
        exact described

/-- The other descriptions describe what is left in the data. -/
theorem describe_others_of_declare
    {inputs : List DeclaredInput}
    {parameters : List EventParameter}
    (declared : Declare inputs parameters) :
    DeclaredType.Describe (part false inputs)
      ((parameters.filter (! ·.indexed)).map (·.description)) := by
  induction inputs generalizing parameters with
  | nil =>
      rw [declare_nil declared]
      trivial
  | cons input inputs inductionHypothesis =>
      obtain ⟨parameter, others, rfl, first, rest⟩ := declare_cons declared
      have described := inductionHypothesis rest
      by_cases isPlain : input.indexed = false
      · have isWhole : input.receivedType = input.type := by
          rw [receivedType, isHashed, isPlain, Bool.false_and, if_neg Bool.false_ne_true]
        rw [part_cons_of_eq isPlain, isWhole,
          List.filter_cons_of_pos (by rw [first.indexed, isPlain]; rfl)]
        exact DeclaredType.describe_cons_iff.mpr ⟨first.describe, described⟩
      · rw [part_cons_of_ne isPlain,
          List.filter_cons_of_neg (by simpa [first.indexed] using isPlain)]
        exact described

theorem indexed_of_declare
    {inputs : List DeclaredInput}
    {parameters : List EventParameter}
    (declared : Declare inputs parameters) :
    parameters.map (·.indexed) = inputs.map (·.indexed) := by
  induction inputs generalizing parameters with
  | nil =>
      rw [declare_nil declared]
      rfl
  | cons input inputs inductionHypothesis =>
      obtain ⟨parameter, others, rfl, first, rest⟩ := declare_cons declared
      rw [List.map_cons, List.map_cons, first.indexed, inductionHypothesis rest]

/-- Event parameters of valid types have these types in signatures. -/
theorem mapM_canonicalType_of_declare
    {inputs : List DeclaredInput}
    (valid : ∀ input ∈ inputs, input.type.isValid = true)
    {parameters : List EventParameter}
    (declared : Declare inputs parameters)
    (place : Option Place) :
    (parameters.mapM fun parameter =>
        parameter.toParameter.canonicalType place parameter.marks) =
      .ok (DeclaredType.signatures (declarations inputs)) := by
  induction inputs generalizing parameters with
  | nil =>
      rw [declare_nil declared]
      rfl
  | cons input inputs inductionHypothesis =>
      obtain ⟨parameter, others, rfl, first, rest⟩ := declare_cons declared
      have inputValid := valid input (by simp)
      have ofFirst :=
        (input.type.signsComponents inputValid).canonicalType_eq inputValid first.type
          first.components place parameter.marks
      rw [List.mapM_cons, ofFirst,
        inductionHypothesis (fun other member => valid other (List.mem_cons_of_mem _ member)) rest]
      rfl

/-- Inputs whose logs are to be decoded. -/
structure WellFormed (inputs : List DeclaredInput) : Prop where
  valid : ∀ input ∈ inputs, input.type.isValid = true
  allowed : ∀ input ∈ inputs, input.indexed = true → input.type.isFixedArray = false
  distinctWithin : ∀ input ∈ inputs, input.type.hasDistinctKeys = true
  distinct : (DeclaredType.keys (declarations inputs)).Nodup

/-- What an event leaves of the values of its parameters. -/
structure Leaves
    (inputs : List DeclaredInput)
    (values : List Value)
    (topics : List Octets)
    (data : Octets) : Prop where
  hold : DeclaredType.allHold (received inputs) values = true
  inTopics : topics? inputs values = some topics
  inData : data? inputs values = some data

/-- The topics are static, and they are read back one after another. -/
theorem decodeMembers_topics
    {inputs : List DeclaredInput}
    (allowed : ∀ input ∈ inputs, input.indexed = true → input.type.isFixedArray = false)
    (valid : ∀ input ∈ inputs, input.type.isValid = true)
    {values : List Value}
    (hold : DeclaredType.allHold (received inputs) values = true)
    {topics : List Octets}
    (left : topics? inputs values = some topics)
    (start : Octets) :
    AbiType.anyDynamic (DeclaredType.abiTypes (part true inputs)) = false ∧
      Decoding.decodeMembers start (DeclaredType.abiTypes (part true inputs)) topics.flatten =
        .ok (AbiType.receivedAll (DeclaredType.abiTypes (part true inputs))
          (DeclaredType.allPositional (part true inputs) (valuesOf true inputs values)), []) := by
  induction inputs generalizing values topics with
  | nil =>
      cases left
      exact ⟨rfl, rfl⟩
  | cons input inputs inductionHypothesis =>
      cases values with
      | nil =>
          cases hold
      | cons v values =>
          rw [received, List.map_cons, DeclaredType.allHold, Bool.and_eq_true] at hold
          have ofRest := fun others (left : topics? inputs values = some others) =>
            inductionHypothesis (fun other member => allowed other (List.mem_cons_of_mem _ member))
              (fun other member => valid other (List.mem_cons_of_mem _ member)) hold.2 left
          rw [topics?] at left
          rw [valuesOf]
          by_cases isIndexed : input.indexed = true
          · simp only [if_pos isIndexed, Option.bind_eq_bind, Option.bind_eq_some_iff,
              Option.pure_def, Option.some.injEq] at left
            obtain ⟨topic, leftFirst, others, leftRest, rfl⟩ := left
            obtain ⟨encoded, static, isWord⟩ :=
              encode?_of_topic? isIndexed (allowed input (by simp) isIndexed)
                (valid input (by simp)) hold.1 leftFirst
            obtain ⟨restStatic, restRead⟩ := ofRest others leftRest
            have holdable : topic.length < twoTo 63 := by
              rw [isWord]
              decide
            -- A static member leaves what follows its word, which is where the next topic begins.
            obtain ⟨rest, read, readsAll⟩ :=
              Decoding.roundTrips_of_isStandard input.receivedType.abiType
                (DeclaredType.isStandard_abiType _
                  (receivedType_of_type (motive := (·.isValid = true)) rfl (valid input (by simp))))
                _ topic encoded holdable others.flatten
            rw [readsAll static] at read
            rw [part_cons_of_eq isIndexed, if_pos isIndexed, DeclaredType.abiTypes,
              DeclaredType.allPositional, AbiType.anyDynamic, AbiType.receivedAll, static,
              restStatic, List.flatten_cons, Decoding.decodeMembers, static, Decoding.part]
            refine ⟨rfl, ?_⟩
            simp only [Bool.false_eq_true, ↓reduceIte, read, restRead, bind, Except.bind]
            rfl
          · rw [if_neg isIndexed] at left
            rw [part_cons_of_ne isIndexed, if_neg isIndexed]
            exact ofRest topics left

/-- Topics are decoded to the values that left them. -/
theorem decodeTypes_topics
    {inputs : List DeclaredInput}
    (allowed : ∀ input ∈ inputs, input.indexed = true → input.type.isFixedArray = false)
    (valid : ∀ input ∈ inputs, input.type.isValid = true)
    {values : List Value}
    (hold : DeclaredType.allHold (received inputs) values = true)
    {topics : List Octets}
    (left : topics? inputs values = some topics) :
    Codec.decodeTypes (DeclaredType.abiTypes (part true inputs)) topics.flatten =
      .ok (AbiType.receivedAll (DeclaredType.abiTypes (part true inputs))
        (DeclaredType.allPositional (part true inputs) (valuesOf true inputs values))) := by
  obtain ⟨static, read⟩ := decodeMembers_topics allowed valid hold left topics.flatten
  rw [Codec.decodeTypes, static, read]
  rfl

end DeclaredInput

namespace EventDescription

/-- Topics and data are decoded apart from each other, and the values are merged under the
keys of the parameters. -/
theorem decodeParameters_eq_merge
    {description : EventDescription}
    {parameters : List EventParameter}
    (described : description.parameters = parameters.map (·.describe))
    (topics : List Octets)
    (data : Octets) :
    description.decodeParameters topics data = (do
      let indexedValues ←
        (Codec.decodeParameters ((parameters.filter (·.indexed)).map (·.topicDescription))
          topics.flatten).mapError fun _ =>
            .undecodable .topics description.signature topics.flatten
      let otherValues ←
        (Codec.decodeParameters ((parameters.filter (! ·.indexed)).map (·.description))
          data).mapError fun _ => .undecodable .data description.signature data
      let keys ← (Description.keys (parameters.map (·.description))).mapError .fault
      let entries ←
        (merge (parameters.map (·.indexed)) keys indexedValues otherValues).mapError .fault
      return Entries.ofList entries) := by
  have descriptions : description.parameters.map Description.ofValue =
      parameters.map (·.description) := by
    rw [described, List.map_map]
    rfl
  have parts : (parameters.map (·.description)).mapM Description.topicPart =
      .ok (parameters.map fun parameter =>
        if parameter.indexed then some parameter.topicDescription else none) := by
    rw [List.mapM_map]
    exact mapM_eq_ok fun parameter _ => parameter.topicPart_description
  have flags :
      (parameters.map fun parameter =>
          if parameter.indexed then some parameter.topicDescription else none).map
        Option.isSome = parameters.map (·.indexed) := by
    rw [List.map_map]
    refine List.map_congr_left fun parameter _ => ?_
    cases indexed : parameter.indexed <;> simp [indexed]
  have indexed :
      (parameters.map fun parameter =>
          if parameter.indexed then some parameter.topicDescription else none).filterMap id =
        (parameters.filter (·.indexed)).map (·.topicDescription) := by
    rw [List.filterMap_map, ← List.filterMap_eq_map, List.filterMap_filter]
    rfl
  have others :
      (((parameters.map (·.description)).zip (parameters.map (·.indexed))).filterMap
          fun pair => if pair.2 then none else some pair.1) =
        (parameters.filter (! ·.indexed)).map (·.description) := by
    rw [List.zip_map', List.filterMap_map, ← List.filterMap_eq_map, List.filterMap_filter]
    refine congrArg (List.filterMap · parameters) (funext fun parameter => ?_)
    cases indexed : parameter.indexed <;> simp [indexed]
  rw [decodeParameters, descriptions, parts]
  simp only [mapError_ok, bind, Except.bind, flags, indexed, others]

/-- The values of all parameters are decoded from what the event leaves of them. -/
theorem decodeParameters_of_leaves
    {description : EventDescription}
    {parameters : List EventParameter}
    (described : description.parameters = parameters.map (·.describe))
    {inputs : List DeclaredInput}
    (declared : DeclaredInput.Declare inputs parameters)
    (wellFormed : DeclaredInput.WellFormed inputs)
    (readable : ∀ input ∈ inputs, input.receivedType.isReadable = true)
    {values : List Value}
    {topics : List Octets}
    {data : Octets}
    (leaves : DeclaredInput.Leaves inputs values topics data)
    (holdable : data.length < twoTo 63) :
    description.decodeParameters topics data =
      .ok (((DeclaredType.keys (DeclaredInput.declarations inputs)).map Key.text).zip
        (DeclaredType.allOrdered (DeclaredInput.received inputs) values)) := by
  have valid : ∀ indexed, DeclaredType.allValid (DeclaredInput.part indexed inputs) = true :=
    fun indexed => DeclaredType.allValid_iff.mpr
      (DeclaredInput.forall_mem_part (motive := (·.isValid = true))
        (fun input member => DeclaredInput.receivedType_of_type (motive := (·.isValid = true)) rfl
          (wellFormed.valid input member)) indexed)
  have distinct :
      ∀ indexed, DeclaredType.allDistinctKeys (DeclaredInput.part indexed inputs) = true :=
    fun indexed => DeclaredType.allDistinctKeys_iff.mpr
      (DeclaredInput.forall_mem_part (motive := (·.hasDistinctKeys = true))
        (fun input member =>
          DeclaredInput.receivedType_of_type (motive := (·.hasDistinctKeys = true)) rfl
            (wellFormed.distinctWithin input member)) indexed)
  have partReadable := DeclaredInput.forall_mem_part (motive := (·.isReadable = true)) readable
  have hold := DeclaredInput.allHold_part leaves.hold
  have ofTopics :=
    DeclaredType.decodeParameters_of_decodeTypes
      (DeclaredInput.describe_topics_of_declare wellFormed.allowed declared) (valid true)
      (distinct true) (partReadable true) (hold true)
      (DeclaredInput.decodeTypes_topics wellFormed.allowed wellFormed.valid leaves.hold
        leaves.inTopics)
  have ofData :=
    DeclaredType.decodeParameters_eq (DeclaredInput.describe_others_of_declare declared)
      (valid false) (distinct false) (partReadable false) (hold false) leaves.inData holdable
  have keyed :=
    DeclaredType.keys_of_describe (DeclaredInput.describe_of_declare declared)
  have asMany :
      (DeclaredType.keys (DeclaredInput.declarations inputs)).length = inputs.length := by
    rw [DeclaredType.length_keys, DeclaredInput.declarations, List.length_map]
  have merged := DeclaredInput.merge_parts leaves.hold asMany
  rw [← DeclaredInput.indexed_of_declare declared] at merged
  rw [decodeParameters_eq_merge described, ofTopics, ofData, keyed]
  simp only [mapError_ok, bind, Except.bind, merged, Entries.ofList_zip wellFormed.distinct]
  rfl

end EventDescription

end ContractBindings
