import Mathlib.Data.List.Nodup
import ContractBindings.Proofs.AssemblySteps

namespace ContractBindings

/-!
# The records of an assembly

A module defines its records one after another, and a definition can only refer to what
stands before it.  Main statement: no record is listed twice, each one comes after all
that the types of its fields mention, and the listed records are those that an annotation
mentions.
-/

namespace TypeExpression

/-- Type expressions are built from the types of elements and of fields. -/
@[elab_as_elim]
theorem inductionOnFields
    {motive : TypeExpression → Prop}
    (named : ∀ name, motive (.named name))
    (branded : ∀ name, motive (.branded name))
    (list : ∀ element, motive element → motive (.list element))
    (record : ∀ fields : RecordFields, (∀ field ∈ fields, motive field.2) → motive (.record fields))
    (type : TypeExpression) :
    motive type :=
  @TypeExpression.rec motive
    (fun fields => ∀ field ∈ fields, motive field.2)
    (fun field => motive field.2)
    named branded list record
    (fun _ member => absurd member List.not_mem_nil)
    (fun _ _ first others _ member =>
      (List.mem_cons.mp member).elim (fun same => same ▸ first) (others _))
    (fun _ _ ofType => ofType)
    type

/-- A record stands in a type expression: as the expression itself, in the element of a
list or in the type of a field. -/
inductive Mentions (record : RecordFields) : TypeExpression → Prop where
  | itself : Mentions record (.record record)
  | element {element : TypeExpression} :
      Mentions record element → Mentions record (.list element)
  | field {fields : RecordFields} {field : Text × TypeExpression} :
      field ∈ fields → Mentions record field.2 → Mentions record (.record fields)

theorem recordsOfFields_eq_flatMap
    (fields : RecordFields) :
    recordsOfFields fields = fields.flatMap (·.2.records) := by
  induction fields with
  | nil =>
      rfl
  | cons field fields inductionHypothesis =>
      rw [recordsOfFields, inductionHypothesis, List.flatMap_cons]

/-- The records of a type expression are those that it mentions. -/
theorem mem_records_iff
    {record : RecordFields}
    {type : TypeExpression} :
    record ∈ type.records ↔ type.Mentions record := by
  induction type using inductionOnFields with
  | named name =>
      exact iff_of_false List.not_mem_nil nofun
  | branded name =>
      exact iff_of_false List.not_mem_nil nofun
  | list element inductionHypothesis =>
      rw [records, inductionHypothesis]
      constructor
      · exact .element
      · rintro (_ | inElement)
        exact inElement
  | record fields inductionHypothesis =>
      rw [records, recordsOfFields_eq_flatMap, List.mem_append, List.mem_flatMap,
        List.mem_singleton]
      constructor
      · rintro (⟨field, member, inField⟩ | rfl)
        · exact .field member ((inductionHypothesis field member).mp inField)
        · exact .itself
      · rintro (_ | _ | ⟨member, inField⟩)
        · exact Or.inr rfl
        · exact Or.inl ⟨_, member, (inductionHypothesis _ member).mpr inField⟩

end TypeExpression

namespace Assembly

/-- Records without repetitions, each behind all that the types of its fields mention. -/
structure Ordered (records : List RecordFields) : Prop where
  nodup : records.Nodup
  inner :
    ∀ before record after, records = before ++ record :: after →
      ∀ field ∈ record, ∀ other, field.2.Mentions other → other ∈ before

theorem Ordered.nil :
    Ordered [] :=
  ⟨.nil, fun _ _ _ split => absurd split (by simp)⟩

theorem mem_addRecords_iff
    {known new : List RecordFields}
    {record : RecordFields} :
    record ∈ addRecords known new ↔ record ∈ known ∨ record ∈ new := by
  induction new generalizing known with
  | nil =>
      simp [addRecords]
  | cons first new inductionHypothesis =>
      rw [addRecords, List.foldl_cons]
      refine inductionHypothesis.trans ?_
      split
      case isTrue isKnown =>
        have known := List.contains_iff_mem.mp isKnown
        constructor
        · rintro (isOld | isNew)
          · exact Or.inl isOld
          · exact Or.inr (List.mem_cons_of_mem first isNew)
        · rintro (isOld | isNew)
          · exact Or.inl isOld
          · rcases List.mem_cons.mp isNew with rfl | isNew
            · exact Or.inl known
            · exact Or.inr isNew
      case isFalse =>
        rw [List.mem_append, List.mem_singleton, List.mem_cons, or_assoc]

theorem addRecords_append
    (known first second : List RecordFields) :
    addRecords known (first ++ second) = addRecords (addRecords known first) second := by
  rw [addRecords, List.foldl_append]
  rfl

/-- A record whose inner records are known is put behind them, or it is known itself. -/
theorem Ordered.addRecord
    {known : List RecordFields}
    (ordered : Ordered known)
    {record : RecordFields}
    (innerKnown : ∀ field ∈ record, ∀ other, field.2.Mentions other → other ∈ known) :
    Ordered (addRecords known [record]) := by
  rw [addRecords, List.foldl_cons, List.foldl_nil]
  split
  case isTrue =>
    exact ordered
  case isFalse isNew =>
    have notKnown : record ∉ known := by
      simpa using isNew
    refine ⟨?_, ?_⟩
    · exact List.nodup_append'.mpr
        ⟨ordered.nodup, List.nodup_singleton record, by simpa using notKnown⟩
    · intro before other after split field member inner mentions
      -- The new record comes last, or the split is one of the known records.
      rcases List.eq_nil_or_concat after with rfl | ⟨others, last, rfl⟩
      · obtain ⟨rfl, same⟩ := List.append_inj' split rfl
        obtain rfl := List.singleton_inj.mp same
        exact innerKnown field member inner mentions
      · have isSplit : known ++ [record] = (before ++ other :: others) ++ [last] := by
          rw [split]
          simp
        obtain ⟨isKnown, -⟩ := List.append_inj' isSplit rfl
        exact ordered.inner before other others isKnown field member inner mentions

/-- What the records of each item keep in order, those of all items keep in order. -/
theorem Ordered.addRecords_flatMap
    {items : List α}
    {records : α → List RecordFields}
    (each : ∀ item ∈ items, ∀ known, Ordered known → Ordered (addRecords known (records item)))
    {known : List RecordFields}
    (ordered : Ordered known) :
    Ordered (addRecords known (items.flatMap records)) := by
  induction items generalizing known with
  | nil =>
      exact ordered
  | cons item items inductionHypothesis =>
      rw [List.flatMap_cons, addRecords_append]
      exact inductionHypothesis (fun other member => each other (List.mem_cons_of_mem item member))
        (each item List.mem_cons_self known ordered)

/-- The records of a type expression are added in order. -/
theorem Ordered.addRecords_records
    (type : TypeExpression)
    {known : List RecordFields}
    (ordered : Ordered known) :
    Ordered (addRecords known type.records) := by
  induction type using TypeExpression.inductionOnFields generalizing known with
  | named name =>
      exact ordered
  | branded name =>
      exact ordered
  | list element inductionHypothesis =>
      exact inductionHypothesis ordered
  | record fields inductionHypothesis =>
      rw [TypeExpression.records, TypeExpression.recordsOfFields_eq_flatMap, addRecords_append]
      refine (ordered.addRecords_flatMap fun field member _ known =>
        inductionHypothesis field member known).addRecord ?_
      intro field member inner mentions
      refine mem_addRecords_iff.mpr (Or.inr (List.mem_flatMap.mpr ⟨field, member, ?_⟩))
      exact TypeExpression.mem_records_iff.mpr mentions

end Assembly

namespace FunctionBinding

/-- The types that the methods of a function are annotated with. -/
def annotations (binding : FunctionBinding) : List TypeExpression :=
  binding.parameters.map (·.expression) ++ [binding.returnType]

theorem records_eq_flatMap
    (binding : FunctionBinding) :
    binding.records = binding.annotations.flatMap (·.records) := by
  rw [records, annotations, List.flatMap_append, List.flatMap_map, List.flatMap_singleton]

end FunctionBinding

namespace Assembly

/-- The types that are bound: those of the parameters and of the results of methods, and
those of the parameters of events. -/
def annotations (assembly : Assembly) : List TypeExpression :=
  assembly.contracts.flatMap (fun contract => contract.functions.flatMap (·.annotations)) ++
    assembly.eventTypes.map fun type => .record type.parameters

/-- The records are listed in order, and they are those that the annotations mention. -/
structure ListsRecords (assembly : Assembly) : Prop where
  ordered : Ordered assembly.records
  mentioned :
    ∀ record, record ∈ assembly.records ↔ ∃ type ∈ assembly.annotations, type.Mentions record

theorem ListsRecords.empty :
    empty.ListsRecords :=
  ⟨.nil, by simp [Assembly.empty, annotations]⟩

/-- More annotations, the records of which are added, keep the records listed. -/
theorem ListsRecords.append
    {assembly next : Assembly}
    (lists : assembly.ListsRecords)
    (types : List TypeExpression)
    (records : next.records = addRecords assembly.records (types.flatMap (·.records)))
    (annotations :
      ∀ type, type ∈ next.annotations ↔ type ∈ assembly.annotations ∨ type ∈ types) :
    next.ListsRecords := by
  refine ⟨?_, fun record => ?_⟩
  · rw [records]
    exact lists.ordered.addRecords_flatMap fun type _ _ => Ordered.addRecords_records type
  · rw [records, mem_addRecords_iff, lists.mentioned, List.mem_flatMap]
    simp only [annotations, TypeExpression.mem_records_iff, or_and_right, exists_or]

theorem listsRecords_of_addEvent
    {contract contractClass : Text}
    {assembly next : Assembly}
    {event : EventEntry}
    {logs : List LogRecord}
    (added : addEvent contract contractClass assembly event = .ok (next, logs))
    (lists : assembly.ListsRecords) :
    next.ListsRecords := by
  rcases addEvent_cases added with ⟨-, rfl⟩ | ⟨-, description, eventClass, type, -, -, -, rfl⟩
  · exact lists
  · refine lists.append [.record type.parameters] ?_ fun other => ?_
    · rw [List.flatMap_singleton]
      rfl
    · simp only [annotations, List.map_append, List.map_singleton, List.mem_append, or_assoc]

theorem listsRecords_withContract
    {assembly : Assembly}
    {name : Text}
    {contract : ContractBinding}
    (_ : className assembly.classNames name = .ok contract.className)
    (lists : assembly.ListsRecords) :
    (assembly.withContract contract).ListsRecords := by
  refine lists.append (contract.functions.flatMap (·.annotations)) ?_ fun type => ?_
  · rw [List.flatMap_assoc]
    simp only [withContract, FunctionBinding.records_eq_flatMap]
  · simp only [annotations, withContract, List.flatMap_append, List.flatMap_singleton,
      List.mem_append]
    tauto

theorem listsRecords_of_ofOutput
    {suffix : Text}
    {output : CompilerOutput}
    {assembly : Assembly}
    {logs : List LogRecord}
    (assembled : ofOutput suffix output = .ok (assembly, logs)) :
    assembly.ListsRecords :=
  holds_of_addContracts listsRecords_of_addEvent listsRecords_withContract assembled .empty

end Assembly

end ContractBindings
