import ContractBindings.Proofs.AssemblyReference
import ContractBindings.Proofs.ClassNames
import ContractBindings.Proofs.PreambleNames

namespace ContractBindings

/-!
# The names that a module binds

Records, the registries, the classes of events and those of contracts follow the
preamble.  Main statement: class names are distinct from one another and from all other
names of the module, and so a class statement binds a name that nothing else binds.
Class names are copied as they are and blanks around a name are no part of it, so the
second half is about names that are identifiers.
-/

namespace Blake2b

/-- A digest is as long as it is asked to be, up to the size of the state. -/
theorem length_digest
    {size : Nat}
    (fits : size ≤ 64)
    (message : Octets) :
    (digest size message).length = size := by
  simp only [digest, List.length_take, List.length_flatMap]
  simp [bytesOf]
  omega

end Blake2b

namespace Octets

theorem isSmallHexDigit_of_mem_toHex
    {bytes : Octets}
    {c : CodePoint}
    (member : c ∈ toHex bytes) :
    Names.isSmallHexDigit c = true := by
  have everyDigit : ∀ n : Fin 16, Names.isSmallHexDigit (hexDigit n.val) = true := by
    decide
  obtain ⟨b, -, isDigit⟩ := List.mem_flatMap.mp member
  have high : b.toNat / 16 < 16 := by
    have := b.toNat_lt
    omega
  rcases List.mem_pair.mp isDigit with rfl | rfl
  · exact everyDigit ⟨_, high⟩
  · exact everyDigit ⟨_, Nat.mod_lt _ (by decide)⟩

theorem length_toHex
    (bytes : Octets) :
    (toHex bytes).length = 2 * bytes.length := by
  simp [toHex, List.length_flatMap, Nat.mul_comm]

end Octets

namespace RecordFields

/-- The name of a record is written with sixteen digits. -/
theorem name_eq_digits
    (record : RecordFields) :
    ∃ digits : Text, record.name = "Record_" ++ digits ∧ digits.length = 16 ∧
      ∀ c ∈ digits, Names.isSmallHexDigit c = true :=
  ⟨_, rfl, by rw [Octets.length_toHex, Blake2b.length_digest (by decide)],
    fun _ => Octets.isSmallHexDigit_of_mem_toHex⟩

theorem isRecordName_name
    (record : RecordFields) :
    Names.isRecordName record.name = true := by
  obtain ⟨digits, isName, asMany, areDigits⟩ := record.name_eq_digits
  have noBreak : Text.dropEnd? ("Record_" ++ digits) "\n" = none := by
    obtain ⟨last, others, isReverse⟩ : ∃ last others, digits.reverse = last :: others :=
      List.exists_cons_of_length_pos (by rw [List.length_reverse, asMany]; decide)
    have isDigit : Names.isSmallHexDigit last = true :=
      areDigits last (List.mem_reverse.mp (isReverse ▸ List.mem_cons_self))
    have notBreak : last ≠ '\n' := by
      rintro rfl
      exact absurd isDigit (by decide)
    rw [Text.dropEnd?, List.reverse_append, isReverse, List.cons_append]
    exact congrArg (Option.map List.reverse) (Text.dropStart?_cons_ne notBreak _ [])
  rw [Names.isRecordName, isName, noBreak, Option.getD_none, Text.dropStart?_append]
  simpa [asMany] using areDigits

theorem isIdentifier_name
    (record : RecordFields) :
    Text.isIdentifier record.name = true ∧ Text.isAscii record.name = true := by
  obtain ⟨digits, isName, -, areDigits⟩ := record.name_eq_digits
  have stemIsName : Text.isIdentifier "Record_" = true := by
    decide
  have stemIsAscii : Text.isAscii "Record_" = true := by
    decide
  rw [isName]
  constructor
  · exact Text.isIdentifier_append stemIsName fun c isDigit =>
      (CodePoint.continuesIdentifier_of_isSmallHexDigit (areDigits c isDigit)).2
  · rw [Text.isAscii, List.all_append, Bool.and_eq_true]
    refine ⟨stemIsAscii, List.all_eq_true.mpr fun c isDigit => ?_⟩
    simpa using (CodePoint.continuesIdentifier_of_isSmallHexDigit (areDigits c isDigit)).1

end RecordFields

namespace Source

/-- The statements that follow the preamble. -/
def statements (assembly : Assembly) : List Text :=
  [line 0 [] 1] ++ assembly.records.map recordDefinition ++
    [line 0 [] 2, eventDescriptions assembly.eventDescriptions] ++
    assembly.eventTypes.map eventClass ++
    [line 0 [] 1, eventUnion assembly.eventTypes, eventClasses assembly.eventClasses] ++
    assembly.contracts.map contractClass

theorem body_eq_statements
    (assembly : Assembly) :
    body assembly = Text.trimEnd (statements assembly).flatten (· = '\n') ++ "\n" := by
  simp [body, statements, List.flatMap]

/-- The text of a module is that of its statements one after another. -/
theorem text_eq_statements
    (assembly : Assembly) :
    (⟨body assembly⟩ : GeneratedModule).text =
      imports.flatMap (line 0 · 1) ++ primitiveStatements.flatten ++
        Text.trimEnd (statements assembly).flatten (· = '\n') ++ "\n" := by
  simp [GeneratedModule.text, preamble, primitiveTypes, primitiveStatements, integerTypes,
    byteClasses, body_eq_statements, List.flatMap]

/-- What a module binds, in the order of its text. -/
def heads (assembly : Assembly) : List Head :=
  preambleHeads ++ (statements assembly).filterMap head?

/-- Every class statement of a module binds a name that nothing else binds, where names
are compared in a normal form. -/
def BindsClassesOnce (normal : Text → Text) (assembly : Assembly) : Prop :=
  ∀ head ∈ heads assembly, head.isClass = true →
    ((heads assembly).map fun other => normal other.name).count (normal head.name) = 1

/-!
## What the statements behind the preamble bind
-/

theorem head?_recordDefinition
    (record : RecordFields) :
    head? (recordDefinition record) = some ⟨false, record.name⟩ := by
  have noClass : record.name.head? ≠ some ('c' : CodePoint) := by
    obtain ⟨digits, isName, -⟩ := record.name_eq_digits
    have beginsWith : record.name.head? = some ('R' : CodePoint) := by
      rw [isName]
      rfl
    rw [beginsWith]
    decide
  have ends : ∀ more : Text, EndsName (" = TypedDict(" ++ more) :=
    fun more => ⟨' ', _, rfl, by decide⟩
  simp only [recordDefinition, line_zero]
  simpa only [List.append_assoc] using
    head?_definition record.isIdentifier_name.1 noClass (ends _)

theorem head?_eventDescriptions
    (descriptions : Keyed EventDescription) :
    head? (eventDescriptions descriptions) = some ⟨false, "event_descriptions"⟩ :=
  rfl

theorem head?_eventUnion
    (types : List EventType) :
    head? (eventUnion types) = some ⟨false, "Event"⟩ := by
  cases types <;> rfl

theorem head?_eventClasses
    (classes : Keyed Text) :
    head? (eventClasses classes) = some ⟨false, "event_types"⟩ :=
  rfl

theorem head?_eventClass
    {type : EventType}
    (isName : Text.isIdentifier type.className = true) :
    head? (eventClass type) = some ⟨true, type.className⟩ := by
  have ends : ∀ more : Text, EndsName ("(DecodedEvent[TLargeInteger]):" ++ more) :=
    fun more => ⟨'(', _, rfl, by decide⟩
  simp only [eventClass, line_zero, List.append_assoc, List.nil_append]
  exact head?_class isName (ends _)

theorem head?_contractClass
    {contract : ContractBinding}
    (isName : Text.isIdentifier contract.className = true) :
    head? (contractClass contract) = some ⟨true, contract.className⟩ := by
  have ends : ∀ more : Text, EndsName ("(Contract[TLargeInteger]):" ++ more) :=
    fun more => ⟨'(', _, rfl, by decide⟩
  simp only [contractClass, line_zero, List.append_assoc, List.nil_append]
  exact head?_class isName (ends _)

theorem heads_eq
    {assembly : Assembly}
    (areNames : ∀ name ∈ assembly.classes, Text.isIdentifier name = true) :
    heads assembly =
      preambleHeads ++ assembly.records.map (⟨false, ·.name⟩) ++ [⟨false, "event_descriptions"⟩] ++
        assembly.eventTypes.map (⟨true, ·.className⟩) ++
          [⟨false, "Event"⟩, ⟨false, "event_types"⟩] ++
            assembly.contracts.map (⟨true, ·.className⟩) := by
  have ofRecords :
      (assembly.records.map recordDefinition).filterMap head? =
        assembly.records.map (⟨false, ·.name⟩) :=
    filterMap_head?_map fun record _ => head?_recordDefinition record
  have ofEventTypes :
      (assembly.eventTypes.map eventClass).filterMap head? =
        assembly.eventTypes.map (⟨true, ·.className⟩) :=
    filterMap_head?_map fun type member =>
      head?_eventClass (areNames _ (List.mem_append_right _ (List.mem_map_of_mem member)))
  have ofContracts :
      (assembly.contracts.map contractClass).filterMap head? =
        assembly.contracts.map (⟨true, ·.className⟩) :=
    filterMap_head?_map fun contract member =>
      head?_contractClass (areNames _ (List.mem_append_left _ (List.mem_map_of_mem member)))
  have ofBlank : head? (line 0 [] 1) = none :=
    rfl
  have ofBlanks : head? (line 0 [] 2) = none :=
    rfl
  simp only [heads, statements, List.filterMap_append, ofRecords, ofEventTypes, ofContracts,
    List.filterMap_cons, List.filterMap_nil, ofBlank, ofBlanks, head?_eventDescriptions,
    head?_eventUnion, head?_eventClasses, List.nil_append, List.append_assoc]

/-- The names that a module binds are those of its records, those of the preamble, those
that it assigns and those of its classes. -/
theorem names_heads_perm
    {assembly : Assembly}
    (areNames : ∀ name ∈ assembly.classes, Text.isIdentifier name = true) :
    ((heads assembly).map (·.name)).Perm
      (assembly.records.map (·.name) ++
        (preambleHeads.map (·.name) ++ assignedNames ++ assembly.classes)) := by
  refine List.perm_iff_count.mpr fun name => ?_
  simp only [heads_eq areNames, List.map_append, List.map_map, List.count_append, assignedNames,
    Assembly.classes, List.map_cons, List.map_nil, List.count_cons, List.count_nil]
  simp only [Function.comp_def]
  omega

/-- A class statement is one of the preamble or one of a class of the assembly. -/
theorem name_mem_of_isClass
    {assembly : Assembly}
    (areNames : ∀ name ∈ assembly.classes, Text.isIdentifier name = true)
    {head : Head}
    (member : head ∈ heads assembly)
    (isClass : head.isClass = true) :
    head.name ∈ preambleHeads.map (·.name) ++ assignedNames ++ assembly.classes := by
  simp only [heads_eq areNames, List.mem_append, List.mem_map, List.mem_cons, List.not_mem_nil,
    or_false] at member
  simp only [Assembly.classes, List.mem_append, List.mem_map]
  rcases member with
    ((((inPreamble | ⟨record, -, rfl⟩) | rfl) | ⟨type, isType, rfl⟩) | (rfl | rfl)) |
      ⟨contract, isContract, rfl⟩
  · exact Or.inl (Or.inl ⟨head, inPreamble, rfl⟩)
  · cases isClass
  · cases isClass
  · exact Or.inr (Or.inr ⟨type, isType, rfl⟩)
  · cases isClass
  · cases isClass
  · exact Or.inr (Or.inl ⟨contract, isContract, rfl⟩)

end Source

namespace Assembly

/-- The names of the classes of an assembly are distinct from one another, from the words
and the names of the language, from all names of records, and from the names that the
preamble and the registries bind. -/
structure ClassesApart (assembly : Assembly) : Prop where
  nodup : assembly.classes.Nodup
  notKeyword : ∀ name ∈ assembly.classes, name ∉ Names.keywords
  notRecord : ∀ name ∈ assembly.classes, Names.isRecordName name = false
  notInPreamble : ∀ name ∈ assembly.classes, name ∉ Source.preambleHeads.map (·.name)
  notAssigned : ∀ name ∈ assembly.classes, name ∉ Source.assignedNames

theorem classesApart_of_ofOutput
    {suffix : Text}
    {output : CompilerOutput}
    {assembly : Assembly}
    {logs : List LogRecord}
    (assembled : ofOutput suffix output = .ok (assembly, logs)) :
    assembly.ClassesApart := by
  obtain ⟨nodup, areFree⟩ := classes_of_ofOutput assembled
  have isFree :
      ∀ name ∈ assembly.classes,
        name ∉ Names.moduleNames ∧ name ∉ Names.keywords ∧ Names.isRecordName name = false :=
    fun name member => Names.clashesAsClass_nil_iff.mp (areFree name member)
  refine
    { nodup
      notKeyword := fun name member => (isFree name member).2.1
      notRecord := fun name member => (isFree name member).2.2
      notInPreamble := fun name member inPreamble => (isFree name member).1 ?_
      notAssigned := fun name member isAssigned => (isFree name member).1 ?_ }
  · exact Source.mem_moduleNames_of_preambleNames (List.mem_append_left _ inPreamble)
  · exact Source.mem_moduleNames_of_preambleNames (List.mem_append_right _ isAssigned)

/-- No name of the preamble, of the registries or of a class is that of a record. -/
theorem ClassesApart.isRecordName_eq_false
    {assembly : Assembly}
    (apart : assembly.ClassesApart)
    {name : Text}
    (member :
      name ∈ Source.preambleHeads.map (·.name) ++ Source.assignedNames ++ assembly.classes) :
    Names.isRecordName name = false := by
  rcases List.mem_append.mp member with isReserved | isClass
  · exact (Source.isAscii_of_mem_moduleNames name
      (Source.mem_moduleNames_of_preambleNames isReserved)).2
  · exact apart.notRecord name isClass

theorem ClassesApart.nodup_names
    {assembly : Assembly}
    (apart : assembly.ClassesApart) :
    (Source.preambleHeads.map (·.name) ++ Source.assignedNames ++ assembly.classes).Nodup := by
  refine List.nodup_append'.mpr
    ⟨Source.nodup_preambleNames, apart.nodup, fun name known isClass => ?_⟩
  rcases List.mem_append.mp known with inPreamble | isAssigned
  · exact apart.notInPreamble name isClass inPreamble
  · exact apart.notAssigned name isClass isAssigned

/-- All names that a module binds are in normal form if those of its classes are. -/
theorem normal_of_mem_heads
    {assembly : Assembly}
    {normal : Text → Text}
    (keepsAscii : ∀ name, Text.isAscii name = true → normal name = name)
    (areNames : ∀ name ∈ assembly.classes, Text.isIdentifier name = true)
    (areNormal : ∀ name ∈ assembly.classes, normal name = name)
    {head : Source.Head}
    (member : head ∈ Source.heads assembly) :
    normal head.name = head.name := by
  have isName := (Source.names_heads_perm areNames).mem_iff.mp (List.mem_map_of_mem member)
  rcases List.mem_append.mp isName with isRecord | isOther
  · obtain ⟨record, -, sameName⟩ := List.mem_map.mp isRecord
    rw [← sameName]
    exact keepsAscii record.name record.isIdentifier_name.2
  · rcases List.mem_append.mp isOther with isReserved | isClass
    · exact keepsAscii _ (Source.isAscii_of_mem_moduleNames _
        (Source.mem_moduleNames_of_preambleNames isReserved)).1
    · exact areNormal _ isClass

/-- The class names of an assembly are apart from one another and from all other names, and
a class statement binds a name that nothing else binds where class names are identifiers in
normal form. -/
theorem bindsClassesOnce_of_ofOutput
    {suffix : Text}
    {output : CompilerOutput}
    {assembly : Assembly}
    {logs : List LogRecord}
    (assembled : ofOutput suffix output = .ok (assembly, logs)) :
    assembly.ClassesApart ∧
      ∀ normal : Text → Text, (∀ name, Text.isAscii name = true → normal name = name) →
        (∀ name ∈ assembly.classes, Text.isIdentifier name = true ∧ normal name = name) →
          Source.BindsClassesOnce normal assembly := by
  have apart := classesApart_of_ofOutput assembled
  refine ⟨apart, fun normal keepsAscii areNormal head member isClass => ?_⟩
  have areNames : ∀ name ∈ assembly.classes, Text.isIdentifier name = true :=
    fun name member => (areNormal name member).1
  have staysNormal : ∀ other ∈ Source.heads assembly, normal other.name = other.name :=
    fun other member =>
      normal_of_mem_heads keepsAscii areNames (fun name isName => (areNormal name isName).2) member
  have isBound := Source.name_mem_of_isClass areNames member isClass
  -- Two records may have the same name, so they are told apart by the form of the name.
  have noRecord : head.name ∉ assembly.records.map (·.name) := by
    intro isRecord
    obtain ⟨record, -, sameName⟩ := List.mem_map.mp isRecord
    have hasForm := record.isRecordName_name
    rw [sameName, apart.isRecordName_eq_false isBound] at hasForm
    cases hasForm
  rw [List.map_congr_left staysNormal, staysNormal head member,
    (Source.names_heads_perm areNames).count_eq, List.count_append,
    List.count_eq_zero_of_not_mem noRecord, List.count_eq_one_of_mem apart.nodup_names isBound]

/-- A contract with the name of the union of events and an event, and a contract with the
name that the class of this event gets. -/
def clashingOutput : CompilerOutput :=
  ⟨[("s", [("Event", [.event (noteEvent "flag" "note" false)]),
    ("Event__E", [.function (sharedFunction true)])])]⟩

theorem bindsClassesOnce_of_ofOutput_clashing :
    ∃ assembly logs,
      ofOutput "_" clashingOutput = .ok (assembly, logs) ∧
        assembly.classes = ["Event_", "Event__E_", "Event__E"] ∧
          assembly.ClassesApart ∧ Source.BindsClassesOnce id assembly := by
  obtain ⟨assembly, logs, assembled, areClasses⟩ :
      ∃ assembly logs, ofOutput "_" clashingOutput = .ok (assembly, logs) ∧
        assembly.classes = ["Event_", "Event__E_", "Event__E"] :=
    ⟨_, _, rfl, rfl⟩
  obtain ⟨apart, bindsOnce⟩ := bindsClassesOnce_of_ofOutput assembled
  refine ⟨assembly, logs, assembled, areClasses, apart, bindsOnce id (fun _ _ => rfl) ?_⟩
  rw [areClasses]
  decide

/-- Two contracts whose names differ by a blank. -/
def blankOutput : CompilerOutput :=
  ⟨[("s", [("A", [.function (sharedFunction false)]), ("A ", [.other "constructor"])])]⟩

/-- Names that differ by a blank are apart, and both class statements bind the same name. -/
theorem not_bindsClassesOnce_blank :
    ∃ assembly logs,
      ofOutput "_" blankOutput = .ok (assembly, logs) ∧
        ∀ normal : Text → Text, ¬ Source.BindsClassesOnce normal assembly := by
  obtain ⟨assembly, logs, assembled, first, second, areContracts⟩ :
      ∃ assembly logs, ofOutput "_" blankOutput = .ok (assembly, logs) ∧
        ∃ first second : List FunctionBinding,
          assembly.contracts = [⟨"s", "A", "A", first⟩, ⟨"s", "A ", "A ", second⟩] :=
    ⟨_, _, rfl, _, _, rfl⟩
  refine ⟨assembly, logs, assembled, fun normal bindsOnce => ?_⟩
  have ofFirst : Source.head? (Source.contractClass ⟨"s", "A", "A", first⟩) = some ⟨true, "A"⟩ :=
    rfl
  have ofSecond :
      Source.head? (Source.contractClass ⟨"s", "A ", "A ", second⟩) = some ⟨true, "A"⟩ :=
    rfl
  obtain ⟨others, isHeads⟩ :
      ∃ others, Source.heads assembly = others ++ [⟨true, "A"⟩, ⟨true, "A"⟩] := by
    rw [Source.heads, Source.statements, areContracts, List.filterMap_append]
    simp only [List.map_cons, List.map_nil, List.filterMap_cons, List.filterMap_nil, ofFirst,
      ofSecond, ← List.append_assoc]
    exact ⟨_, rfl⟩
  have once := bindsOnce ⟨true, "A"⟩ (by simp [isHeads]) rfl
  rw [isHeads, List.map_append, List.count_append] at once
  simp only [List.map_cons, List.map_nil, List.count_cons_self, List.count_nil] at once
  omega

end Assembly

end ContractBindings
