import ContractBindings.Call.Contract
import ContractBindings.Proofs.EventRegistration
import ContractBindings.Proofs.ReceiptDecoding
import ContractBindings.Proofs.RenamedTypes

namespace ContractBindings

/-!
# Replaced events

Under the hash of its signature an event may find the description of a later one.
Types in the same signature differ in nothing but names, so the logs of the
event are still decoded if the later one marks the same parameters, and what is
decoded are the values of the event under the names of the later one.
-/

namespace DeclaredType

/-- Types of the same form leave hashes alike. -/
theorem leavesHash_eq_of_form
    {type other : DeclaredType}
    (sameForm : type.form = other.form) :
    type.leavesHash = other.leavesHash := by
  cases type with
  | scalar type =>
      rw [eq_scalar_of_form sameForm]
  | array element size =>
      obtain ⟨otherElement, rfl, -⟩ := eq_array_of_form sameForm
      rfl
  | tuple components =>
      obtain ⟨others, rfl, -⟩ := eq_tuple_of_form sameForm
      rfl

end DeclaredType

namespace DeclaredInput

/-- Parameters of the same form with the same mark. -/
structure Alike (input other : DeclaredInput) : Prop where
  form : input.type.form = other.type.form
  indexed : input.indexed = other.indexed

/-- Parameters of the same forms with the same marks are alike one by one. -/
theorem alike_of_forms
    {inputs others : List DeclaredInput}
    (sameForms :
      DeclaredType.forms (declarations inputs) = DeclaredType.forms (declarations others))
    (sameMarks : inputs.map (·.indexed) = others.map (·.indexed)) :
    List.Forall₂ Alike inputs others := by
  induction inputs generalizing others with
  | nil =>
      cases others with
      | nil =>
          exact .nil
      | cons other others =>
          cases sameMarks
  | cons input inputs inductionHypothesis =>
      cases others with
      | nil =>
          cases sameMarks
      | cons other others =>
          obtain ⟨sameForm, restForms⟩ := List.cons.inj sameForms
          obtain ⟨sameMark, restMarks⟩ := List.cons.inj sameMarks
          exact .cons ⟨sameForm, sameMark⟩ (inductionHypothesis restForms restMarks)

/-- What is decoded for parameters that are alike has the same form. -/
theorem Alike.receivedForm
    {input other : DeclaredInput}
    (alike : Alike input other) :
    input.receivedType.form = other.receivedType.form := by
  rw [receivedType, receivedType, isHashed, isHashed, alike.indexed,
    DeclaredType.leavesHash_eq_of_form alike.form]
  split
  · rfl
  · exact alike.form

theorem forms_received
    {inputs others : List DeclaredInput}
    (alike : List.Forall₂ Alike inputs others) :
    DeclaredType.forms (received inputs) = DeclaredType.forms (received others) := by
  induction alike with
  | nil =>
      rfl
  | cons first _ inductionHypothesis =>
      rw [received, received] at inductionHypothesis ⊢
      rw [List.map_cons, List.map_cons, DeclaredType.forms, DeclaredType.forms,
        first.receivedForm, inductionHypothesis]

/-- Topics and data are the same for parameters that are alike and values that differ in
nothing but keys. -/
theorem parts_eq_of_alike
    {inputs others : List DeclaredInput}
    (alike : List.Forall₂ Alike inputs others)
    (valid : ∀ input ∈ inputs, input.type.isValid = true)
    (othersValid : ∀ other ∈ others, other.type.isValid = true)
    {values renamed : List Value}
    (hold : DeclaredType.allHold (received inputs) values = true)
    (renamedHold : DeclaredType.allHold (received others) renamed = true)
    (samePositional :
      DeclaredType.allPositional (received others) renamed =
        DeclaredType.allPositional (received inputs) values) :
    topics? others renamed = topics? inputs values ∧
      DeclaredType.abiTypes (part false others) = DeclaredType.abiTypes (part false inputs) ∧
        DeclaredType.allPositional (part false others) (valuesOf false others renamed) =
          DeclaredType.allPositional (part false inputs) (valuesOf false inputs values) := by
  induction alike generalizing values renamed with
  | nil =>
      exact ⟨rfl, rfl, rfl⟩
  | @cons input other inputs others first _ inductionHypothesis =>
      rw [List.forall_mem_cons] at valid othersValid
      cases values with
      | nil =>
          cases hold
      | cons v values =>
          cases renamed with
          | nil =>
              cases renamedHold
          | cons w renamed =>
              rw [received, List.map_cons, DeclaredType.allHold, Bool.and_eq_true]
                at hold renamedHold
              simp only [received, List.map_cons, DeclaredType.allPositional, List.cons.injEq]
                at samePositional
              obtain ⟨sameTopics, sameTypes, sameOthers⟩ :=
                inductionHypothesis valid.2 othersValid.2 hold.2 renamedHold.2 samePositional.2
              have sameType : other.receivedType.abiType = input.receivedType.abiType :=
                (DeclaredType.abiType_eq_of_form first.receivedForm
                  (receivedType_of_type (motive := (·.isValid = true)) rfl valid.1)
                  (receivedType_of_type (motive := (·.isValid = true)) rfl othersValid.1)).symm
              have sameTopic : other.topic? w = input.topic? v := by
                rw [topic?_eq_encode? hold.1, topic?_eq_encode? renamedHold.1, sameType,
                  samePositional.1]
              have sameMark := first.indexed
              rw [topics?, topics?, valuesOf, valuesOf, ← sameMark, sameTopic, sameTopics]
              refine ⟨rfl, ?_⟩
              by_cases isPlain : input.indexed = false
              · rw [part_cons_of_eq isPlain, part_cons_of_eq (sameMark ▸ isPlain), if_pos isPlain,
                  if_pos isPlain, DeclaredType.abiTypes, DeclaredType.abiTypes,
                  DeclaredType.allPositional, DeclaredType.allPositional, sameType, sameTypes,
                  samePositional.1, sameOthers]
                exact ⟨rfl, rfl⟩
              · rw [part_cons_of_ne isPlain, part_cons_of_ne (sameMark ▸ isPlain),
                  if_neg isPlain, if_neg isPlain]
                exact ⟨sameTypes, sameOthers⟩

/-- What an event leaves could as well be left by one with parameters that are alike, of
values under other keys. -/
theorem Leaves.renamed
    {inputs others : List DeclaredInput}
    {values : List Value}
    {topics : List Octets}
    {data : Octets}
    (leaves : Leaves inputs values topics data)
    (alike : List.Forall₂ Alike inputs others)
    (wellFormed : WellFormed inputs)
    (othersWellFormed : WellFormed others) :
    ∃ renamed,
      Leaves others renamed topics data ∧
        DeclaredType.allOrdered (received others) renamed = renamed ∧
          DeclaredType.allPositional (received others) renamed =
            DeclaredType.allPositional (received inputs) values := by
  have distinct : ∀ declaration ∈ received others, declaration.2.hasDistinctKeys = true := by
    intro declaration member
    obtain ⟨other, isOther, rfl⟩ := List.mem_map.mp member
    exact receivedType_of_type (motive := (·.hasDistinctKeys = true)) rfl
      (othersWellFormed.distinctWithin other isOther)
  obtain ⟨renamed, hold, isOrdered, samePositional⟩ :=
    DeclaredType.exists_allRenamed (fun declaration _ => declaration.2.renameable)
      (forms_received alike) distinct leaves.hold
  obtain ⟨sameTopics, sameTypes, sameOthers⟩ :=
    parts_eq_of_alike alike wellFormed.valid othersWellFormed.valid leaves.hold hold
      samePositional
  refine ⟨renamed, ⟨hold, sameTopics.trans leaves.inTopics, ?_⟩, isOrdered, samePositional⟩
  rw [data?, DeclaredType.encoding?, sameTypes, sameOthers]
  exact leaves.inData

/-- Parameters that are alike are read alike. -/
theorem isReadable_of_alike
    {inputs others : List DeclaredInput}
    (alike : List.Forall₂ Alike inputs others)
    (readable : ∀ input ∈ inputs, input.receivedType.isReadable = true) :
    ∀ other ∈ others, other.receivedType.isReadable = true := by
  induction alike with
  | nil =>
      exact fun other member => nomatch member
  | cons first _ inductionHypothesis =>
      rw [List.forall_mem_cons] at readable ⊢
      rw [← DeclaredType.isReadable_eq_of_form first.receivedForm]
      exact ⟨readable.1, inductionHypothesis readable.2⟩

end DeclaredInput

namespace Assembly

/-- A log of a named event is decoded by the description of the last event with its hash.  If
the last one has the signature of the event and marks the same parameters, the values are
those of the event, and only their keys and the class are those of the last one. -/
theorem decodeEvent_of_namedEvent
    {suffix : Text}
    {output : CompilerOutput}
    {assembly : Assembly}
    {logs : List LogRecord}
    (assembled : ofOutput suffix output = .ok (assembly, logs))
    {contract : Text}
    {event : EventEntry}
    (isNamed : (contract, event) ∈ output.namedEvents)
    {inputs : List DeclaredInput}
    {values : List Value}
    {topics : List Octets}
    {data : Octets}
    (emits : event.Emits inputs values topics data)
    {log : Value}
    (hasTopics : EventRegistry.HasTopics log (event.declaredHash inputs :: topics))
    (hasData : EventRegistry.HasData log data)
    (readable : ∀ input ∈ inputs, input.receivedType.isReadable = true)
    (holdable : data.length < twoTo 63) :
    ∃ lastContract lastEvent,
      output.lastEvent? (Octets.toHex (event.declaredHash inputs)) =
          some (lastContract, lastEvent) ∧
        ∀ lastInputs, DeclaredInput.Declare lastInputs lastEvent.inputs →
          DeclaredInput.WellFormed lastInputs →
            lastEvent.declaredSignature lastInputs = event.declaredSignature inputs →
              lastInputs.map (·.indexed) = inputs.map (·.indexed) →
                ∃ decoded,
                  assembly.registry.decodeEvent log =
                      .ok (some
                        { className :=
                            assembly.eventClasses.get? (Octets.toHex (event.declaredHash inputs))
                          name := event.name
                          parameters :=
                            ((DeclaredType.keys
                                (DeclaredInput.declarations lastInputs)).map Key.text).zip
                              decoded }) ∧
                    DeclaredType.allHold (DeclaredInput.received lastInputs) decoded = true ∧
                    DeclaredType.allPositional (DeclaredInput.received lastInputs) decoded =
                      DeclaredType.allPositional (DeclaredInput.received inputs) values := by
  obtain ⟨description, described⟩ := describe_of_namedEvent assembled isNamed
  obtain ⟨-, sameHash, -⟩ :=
    EventEntry.describe_of_declare emits.declared emits.wellFormed.valid described
  obtain ⟨lastContract, lastEvent, isLast⟩ := lastEvent?_of_namedEvent isNamed described
  obtain ⟨lastDescription, lastDescribed, lastHash⟩ := describe_of_lastEvent? isLast
  have registered := get?_eventDescriptions assembled isLast lastDescribed
  rw [sameHash] at isLast registered lastHash
  refine ⟨lastContract, lastEvent, isLast, ?_⟩
  intro lastInputs lastDeclared lastWellFormed sameSignature sameMarks
  obtain ⟨sameName, sameForms⟩ :=
    DeclaredType.eq_of_signatureOf (List.forall_mem_map.mpr lastWellFormed.valid)
      (List.forall_mem_map.mpr emits.wellFormed.valid) sameSignature
  have alike := DeclaredInput.alike_of_forms sameForms.symm sameMarks.symm
  -- Some values under the later keys leave the same log, and the later event reads these.
  obtain ⟨renamed, leaves, isOrdered, samePositional⟩ :=
    emits.leaves.renamed alike emits.wellFormed lastWellFormed
  obtain ⟨lastName, -, lastParameters⟩ :=
    EventEntry.describe_of_declare lastDeclared lastWellFormed.valid lastDescribed
  refine ⟨renamed, ?_, leaves.hold, samePositional⟩
  rw [EventRegistry.decodeEvent_of_known hasTopics hasData registered,
    EventDescription.decodeParameters_of_leaves lastParameters lastDeclared lastWellFormed
      (DeclaredInput.isReadable_of_alike alike readable) leaves holdable,
    lastHash, lastName, sameName, isOrdered]
  rfl

/-- An event with a mark, which may be indexed, and a note. -/
def noteEvent (flag note : Text) (indexed : Bool) : EventEntry where
  name := "E"
  inputs := [⟨⟨flag, "bool", none, none⟩, indexed⟩, ⟨⟨note, "string", none, none⟩, false⟩]
  anonymous := false

/-- The declared parameters of the event. -/
def noteInputs (flag note : Text) (indexed : Bool) : List DeclaredInput :=
  [⟨flag, .scalar .bool, indexed⟩, ⟨note, .scalar .string, false⟩]

theorem declare_noteInputs
    (flag note : Text)
    (indexed : Bool) :
    DeclaredInput.Declare (noteInputs flag note indexed) (noteEvent flag note indexed).inputs :=
  ⟨⟨rfl, rfl, trivial, rfl⟩, ⟨rfl, rfl, trivial, rfl⟩, trivial⟩

/-- The signature has neither the names nor the marks of the parameters. -/
theorem declaredSignature_noteEvent
    (flag note other otherNote : Text)
    (indexed otherIndexed : Bool) :
    (noteEvent flag note indexed).declaredSignature (noteInputs flag note indexed) =
      (noteEvent other otherNote otherIndexed).declaredSignature
        (noteInputs other otherNote otherIndexed) :=
  rfl

/-- Two contracts that declare an event each. -/
def pairedOutput (first second : EventEntry) : CompilerOutput :=
  ⟨[("s", [("A", [.event first]), ("B", [.event second])])]⟩

theorem namedEvents_pairedOutput
    (flag note other otherNote : Text)
    (indexed otherIndexed : Bool) :
    (pairedOutput (noteEvent flag note indexed)
        (noteEvent other otherNote otherIndexed)).namedEvents =
      [(Text.ofString "A", noteEvent flag note indexed),
        (Text.ofString "B", noteEvent other otherNote otherIndexed)] :=
  rfl

theorem lastEvent?_pairedOutput
    (flag note other otherNote : Text)
    (indexed otherIndexed : Bool) :
    (pairedOutput (noteEvent flag note indexed)
        (noteEvent other otherNote otherIndexed)).lastEvent?
        (Octets.toHex
          ((noteEvent flag note indexed).declaredHash (noteInputs flag note indexed))) =
      some (Text.ofString "B", noteEvent other otherNote otherIndexed) := by
  have valid : ∀ input ∈ noteInputs other otherNote otherIndexed, input.type.isValid = true := by
    simp [noteInputs, DeclaredType.isValid, ScalarType.isValid]
  have declared := declare_noteInputs other otherNote otherIndexed
  obtain ⟨description, described⟩ :=
    EventEntry.describe_isOk declared valid (by rfl) "B"
  obtain ⟨-, sameHash, -⟩ := EventEntry.describe_of_declare declared valid described
  rw [EventEntry.declaredHash,
    declaredSignature_noteEvent other otherNote flag note otherIndexed indexed,
    ← EventEntry.declaredHash] at sameHash
  have hasHash : (noteEvent other otherNote otherIndexed).signatureHash? "B" =
      some (Octets.toHex
        ((noteEvent flag note indexed).declaredHash (noteInputs flag note indexed))) := by
    rw [EventEntry.signatureHash?, described, ← sameHash]
  rw [CompilerOutput.lastEvent?, namedEvents_pairedOutput]
  simp [hasHash]

/-- The values of a replaced event are decoded under the names of the later one. -/
theorem decodeEvent_of_namedEvent_noteEvent :
    ∃ assembly logs className data,
      ofOutput "_"
          (pairedOutput (noteEvent "flag" "note" true) (noteEvent "on" "text" true)) =
        .ok (assembly, logs) ∧
      assembly.registry.decodeEvent
          (EventRegistry.rawLog
            [(noteEvent "flag" "note" true).declaredHash (noteInputs "flag" "note" true),
              Encoding.word 1]
            data) =
        .ok (some ⟨className, "E", [(.text "on", .bool true), (.text "text", .text "hi")]⟩) := by
  obtain ⟨assembly, logs, assembled⟩ :
      ∃ assembly logs,
        ofOutput "_"
            (pairedOutput (noteEvent "flag" "note" true) (noteEvent "on" "text" true)) =
          .ok (assembly, logs) :=
    ⟨_, _, rfl⟩
  let inputs := noteInputs "flag" "note" true
  let lastInputs := noteInputs "on" "text" true
  let values : List Value := [.bool true, .text "hi"]
  have wellFormed : DeclaredInput.WellFormed inputs :=
    ⟨by decide, by decide, by decide, by decide⟩
  have lastWellFormed : DeclaredInput.WellFormed lastInputs :=
    ⟨by decide, by decide, by decide, by decide⟩
  have hold : DeclaredType.allHold (DeclaredInput.received inputs) values = true := by
    decide
  have isShort : ((DeclaredInput.data? inputs values).getD []).length < twoTo 63 := by
    decide +kernel
  obtain ⟨data, inData, holdable⟩ := DeclaredInput.exists_data?_of_lt hold isShort
  have emits : (noteEvent "flag" "note" true).Emits inputs values [Encoding.word 1] data :=
    ⟨declare_noteInputs "flag" "note" true, wellFormed, hold, by rfl, inData⟩
  have isNamed :
      (Text.ofString "A", noteEvent "flag" "note" true) ∈
        (pairedOutput (noteEvent "flag" "note" true)
          (noteEvent "on" "text" true)).namedEvents := by
    rw [namedEvents_pairedOutput]
    exact .head _
  obtain ⟨hasTopics, hasData⟩ :=
    EventRegistry.isLog_rawLog
      [(noteEvent "flag" "note" true).declaredHash inputs, Encoding.word 1] data
  obtain ⟨lastContract, lastEvent, isLast, decodes⟩ :=
    decodeEvent_of_namedEvent assembled isNamed emits hasTopics hasData (by decide +kernel)
      holdable
  rw [lastEvent?_pairedOutput] at isLast
  cases isLast
  obtain ⟨decoded, isDecoded, lastHold, samePositional⟩ :=
    decodes lastInputs (declare_noteInputs "on" "text" true) lastWellFormed
      (declaredSignature_noteEvent _ _ _ _ _ _) rfl
  have sameValues : decoded = values := by
    match decoded, lastHold, samePositional with
    | [flag, note], _, samePositional =>
        exact samePositional
  rw [sameValues] at isDecoded
  exact ⟨assembly, logs, _, data, assembled, isDecoded⟩

/-- A log that an event of an assembled output emits is not decoded, though all its events
have well formed parameters. -/
def Loses
    (output : CompilerOutput)
    (contract : Text)
    (event : EventEntry)
    (inputs : List DeclaredInput)
    (values : List Value) : Prop :=
  ∃ assembly logs data failure,
    ofOutput "_" output = .ok (assembly, logs) ∧
      (contract, event) ∈ output.namedEvents ∧
        (∀ named ∈ output.namedEvents, ∃ inputs,
          DeclaredInput.Declare inputs named.2.inputs ∧ DeclaredInput.WellFormed inputs) ∧
          event.Emits inputs values [] data ∧
            assembly.registry.decodeEvent
                (EventRegistry.rawLog [event.declaredHash inputs] data) =
              .error failure

/-- A log is not decoded if the later event marks another parameter. -/
theorem loses_remarked :
    Loses (pairedOutput (noteEvent "flag" "note" false) (noteEvent "flag" "note" true)) "A"
      (noteEvent "flag" "note" false) (noteInputs "flag" "note" false)
      [.bool true, .text "hi"] := by
  obtain ⟨assembly, logs, assembled⟩ :
      ∃ assembly logs,
        ofOutput "_"
            (pairedOutput (noteEvent "flag" "note" false) (noteEvent "flag" "note" true)) =
          .ok (assembly, logs) :=
    ⟨_, _, rfl⟩
  have wellFormed : DeclaredInput.WellFormed (noteInputs "flag" "note" false) :=
    ⟨by decide, by decide, by decide, by decide⟩
  have lastWellFormed : DeclaredInput.WellFormed (noteInputs "flag" "note" true) :=
    ⟨by decide, by decide, by decide, by decide⟩
  have hold :
      DeclaredType.allHold (DeclaredInput.received (noteInputs "flag" "note" false))
        [.bool true, .text "hi"] = true := by
    decide
  obtain ⟨data, inData⟩ := Option.isSome_iff_exists.mp
    (DeclaredType.encoding?_isSome (DeclaredInput.allHold_part hold false))
  have declared := declare_noteInputs "flag" "note" false
  have lastDeclared := declare_noteInputs "flag" "note" true
  have isLast := lastEvent?_pairedOutput "flag" "note" "flag" "note" false true
  obtain ⟨description, described, lastHash⟩ := describe_of_lastEvent? isLast
  have registered := get?_eventDescriptions assembled isLast described
  obtain ⟨-, -, parameters⟩ :=
    EventEntry.describe_of_declare lastDeclared lastWellFormed.valid described
  obtain ⟨hasTopics, hasData⟩ :=
    EventRegistry.isLog_rawLog
      [(noteEvent "flag" "note" false).declaredHash (noteInputs "flag" "note" false)] data
  obtain ⟨refusal, refused⟩ : ∃ refusal,
      Codec.decodeParameters
          (((noteEvent "flag" "note" true).inputs.filter (·.indexed)).map (·.topicDescription))
          ([] : List Octets).flatten =
        .error refusal :=
    ⟨_, rfl⟩
  refine ⟨assembly, logs, data, .undecodable .topics description.signature [], assembled,
    ?_, ?_, ⟨declared, wellFormed, hold, rfl, inData⟩, ?_⟩
  · rw [namedEvents_pairedOutput]
    exact .head _
  · rw [namedEvents_pairedOutput]
    exact List.forall_mem_cons.mpr ⟨⟨_, declared, wellFormed⟩,
      List.forall_mem_singleton.mpr ⟨_, lastDeclared, lastWellFormed⟩⟩
  · rw [EventRegistry.decodeEvent_of_known hasTopics hasData registered,
      EventDescription.decodeParameters_eq_merge parameters, refused]
    rfl

/-- A contract with a single event. -/
def plainOutput (type : DeclaredType) : CompilerOutput :=
  ⟨[("s", [("C", [.event (EventRegistry.plainEvent type)])])]⟩

/-- The contract is assembled, if there is a type expression for the parameter. -/
theorem ofOutput_plainOutput
    {type : DeclaredType}
    {description : EventDescription}
    (described : (EventRegistry.plainEvent type).describe "C" = .ok description)
    {expression : TypeExpression}
    (expressed :
      TypeExpression.ofParameter (some ⟨"C", "E"⟩) [(.text "indexed", .bool false)]
          ⟨"x", type.text, none, none⟩ =
        .ok expression) :
    ∃ assembly logs, ofOutput "_" (plainOutput type) = .ok (assembly, logs) := by
  obtain ⟨hashed, isHashed, -⟩ := bind_eq_ok_iff.mp described
  obtain ⟨eventType, typed⟩ : ∃ eventType,
      (EventRegistry.plainEvent type).nominalType "C" "C_E" = .ok eventType := by
    have parameterTyped :
        (EventRegistry.plainEvent type).inputs.mapM
            (EventEntry.parameterType ((EventRegistry.plainEvent type).place "C")) =
          .ok [expression] := by
      rw [EventRegistry.plainEvent, List.mapM_cons]
      simp only [EventEntry.parameterType, Bool.false_and, Bool.false_eq_true, ↓reduceIte]
      rw [EventEntry.place, EventParameter.marks, expressed]
      rfl
    rw [EventEntry.nominalType, parameterTyped, isHashed]
    exact ⟨_, rfl⟩
  have added : ∀ assembly : Assembly, assembly.classNames = [Text.ofString "C"] →
      ∃ next logs,
        addEvent "C" "C" assembly (EventRegistry.plainEvent type) = .ok (next, logs) := by
    intro assembly oneName
    have named : className assembly.classNames
        ("C" ++ "_" ++ (EventRegistry.plainEvent type).name) = .ok (Text.ofString "C_E") := by
      rw [oneName]
      rfl
    rw [addEvent, described, named]
    simp only [bind, Except.bind, typed]
    exact ⟨_, _, rfl⟩
  let started : Assembly :=
    { empty with
      contracts := [⟨"s", "C", "C", []⟩]
      classNames := ["C"] }
  obtain ⟨next, logs, added⟩ := added started rfl
  have addedContract : addContract "_" "s" empty "C" [.event (EventRegistry.plainEvent type)] =
      (addEvents "C" "C" started [EventRegistry.plainEvent type]).bind
        fun added => .ok (added.1, added.2) := by
    rfl
  have output : ofOutput "_" (plainOutput type) =
      addContracts "_" empty [("s", "C", [.event (EventRegistry.plainEvent type)])] := by
    rfl
  rw [output, addContracts, addedContract, addEvents, added]
  exact ⟨_, _, rfl⟩

/-- A log with a value is not decoded, though no other event is declared. -/
def LosesValue (type : DeclaredType) (v : Value) : Prop :=
  Loses (plainOutput type) "C" (EventRegistry.plainEvent type) (EventRegistry.plainInputs type) [v]

/-- A log with a value that the codec does not decode is not decoded. -/
theorem losesValue_of_undecodable
    {type : DeclaredType}
    {v : Value}
    (undecodable : DeclaredType.Undecodable type v)
    (expressed :
      ∃ expression,
        TypeExpression.ofParameter (some ⟨"C", "E"⟩) [(.text "indexed", .bool false)]
            ⟨"x", type.text, none, none⟩ =
          .ok expression) :
    LosesValue type v := by
  obtain ⟨expression, expressed⟩ := expressed
  obtain ⟨data, emits, notDecoded⟩ := EventRegistry.decodeEvent_plainLog undecodable
  obtain ⟨description, described⟩ :=
    EventEntry.describe_isOk emits.declared emits.wellFormed.valid (by rfl) "C"
  obtain ⟨assembly, logs, assembled⟩ := ofOutput_plainOutput described expressed
  have inOrder : (plainOutput type).namedEvents =
      [(Text.ofString "C", EventRegistry.plainEvent type)] := by
    rfl
  have isNamed :
      (Text.ofString "C", EventRegistry.plainEvent type) ∈ (plainOutput type).namedEvents := by
    rw [inOrder]
    exact .head _
  obtain ⟨lastContract, lastEvent, isLast⟩ := lastEvent?_of_namedEvent isNamed described
  have isOnly := List.mem_reverse.mp (List.mem_of_find?_eq_some isLast)
  rw [inOrder, List.mem_singleton] at isOnly
  cases isOnly
  have registered := get?_eventDescriptions assembled isLast described
  refine ⟨assembly, logs, data, _, assembled, isNamed, ?_, emits,
    notDecoded assembly.registry "C" description described registered⟩
  rw [inOrder]
  exact List.forall_mem_singleton.mpr ⟨_, emits.declared, emits.wellFormed⟩

/-- Logs of named events are lost where a later event marks other parameters, and beyond the
limits of the reader and of memory. -/
theorem decodeEvent_of_namedEvent_lost :
    Loses (pairedOutput (noteEvent "flag" "note" false) (noteEvent "flag" "note" true)) "A"
        (noteEvent "flag" "note" false) (noteInputs "flag" "note" false)
        [.bool true, .text "hi"] ∧
      LosesValue (DeclaredType.sizedArrays (tenTo 4300)) (.list []) ∧
        LosesValue (DeclaredType.nestedArrays 400) (.list []) ∧
          LosesValue (.scalar .bytes) (.bytes (List.replicate (twoTo 63) 0)) := by
  have sizedTexts : (DeclaredType.sizedArrays (tenTo 4300)).stem = .scalar .string := rfl
  obtain ⟨nestedTexts, depth⟩ := DeclaredType.stem_nestedArrays 400
  have sized := DeclaredType.ofParameter_texts sizedTexts (by decide) (some ⟨"C", "E"⟩)
    [(.text "indexed", .bool false)] "x"
  have nested := DeclaredType.ofParameter_texts nestedTexts (by rw [depth]; decide)
    (some ⟨"C", "E"⟩) [(.text "indexed", .bool false)] "x"
  exact ⟨loses_remarked,
    losesValue_of_undecodable DeclaredType.undecodable_sizedArrays ⟨_, sized⟩,
    losesValue_of_undecodable DeclaredType.undecodable_nestedArrays ⟨_, nested⟩,
    losesValue_of_undecodable DeclaredType.undecodable_bytes ⟨_, rfl⟩⟩

end Assembly

end ContractBindings
