import ContractBindings.Proofs.AssemblyReference
import ContractBindings.Proofs.EventRegistration

namespace ContractBindings

/-!
# Contracts appended to a document

A document that goes on with further contracts is assembled from where the assembly of
the first contracts ended.

Main statement: the assembly of the first contracts stays at the front of every list of
the longer one, also of the keys of both registries, and what is registered under a hash
changes only if one of the further contracts declares an event with this hash.
-/

namespace Keyed

/-- Values put one after another leave the known keys where they are. -/
theorem map_fst_prefix_foldl_put
    (key : β → Text)
    (value : β → α)
    (items : List β)
    (known : Keyed α) :
    known.map (·.1) <+:
      (items.foldl (fun known item => put (key item) (value item) known) known).map (·.1) := by
  induction items generalizing known with
  | nil =>
      exact List.prefix_rfl
  | cons item items inductionHypothesis =>
      refine List.IsPrefix.trans ?_ (inductionHypothesis _)
      rw [map_fst_put]
      split
      · exact List.prefix_rfl
      · exact List.prefix_append _ _

/-- What is found under a key changes only if a value is put under it. -/
theorem exists_of_get?_foldl_put_ne
    {key : β → Text}
    {value : β → α}
    {items : List β}
    {known : Keyed α}
    {wanted : Text}
    (differs :
      (items.foldl (fun known item => put (key item) (value item) known) known).get? wanted ≠
        known.get? wanted) :
    ∃ item ∈ items, key item = wanted := by
  rw [get?_foldl_put] at differs
  cases found : items.reverse.find? (key · = wanted) with
  | none =>
      rw [found] at differs
      exact absurd rfl differs
  | some item =>
      exact ⟨item, List.mem_reverse.mp (List.mem_of_find?_eq_some found),
        by simpa using List.find?_some found⟩

end Keyed

namespace Assembly

theorem prefix_addRecords
    (known new : List RecordFields) :
    known <+: addRecords known new := by
  induction new generalizing known with
  | nil =>
      exact List.prefix_rfl
  | cons record new inductionHypothesis =>
      rw [addRecords, List.foldl_cons]
      refine List.IsPrefix.trans ?_ (inductionHypothesis _)
      split
      · exact List.prefix_rfl
      · exact List.prefix_append _ _

/-- The contracts of two lists are added one list after the other. -/
theorem addContracts_append
    (suffix : Text)
    (assembly : Assembly)
    (contracts others : List (Text × Text × Interface)) :
    addContracts suffix assembly (contracts ++ others) = do
      let (middle, logs) ← addContracts suffix assembly contracts
      let (last, more) ← addContracts suffix middle others
      return (last, logs ++ more) := by
  induction contracts generalizing assembly with
  | nil =>
      rw [List.nil_append, addContracts]
      dsimp only [bind, Except.bind]
      cases addContracts suffix assembly others <;> rfl
  | cons contract contracts inductionHypothesis =>
      obtain ⟨globalName, name, interface⟩ := contract
      rw [List.cons_append, addContracts, addContracts]
      rcases addContract suffix globalName assembly name interface with failure | ⟨first, logs⟩
      · rfl
      · dsimp only [bind, Except.bind]
        rw [inductionHypothesis]
        rcases addContracts suffix first contracts with failure | ⟨middle, middleLogs⟩
        · rfl
        · dsimp only [bind, Except.bind, pure, Except.pure]
          rcases addContracts suffix middle others with failure | ⟨last, lastLogs⟩
          · rfl
          · dsimp only
            rw [List.append_assoc]

/-- What a run keeps at the front of the lists that its steps do not just append to. -/
structure Grows (assembly next : Assembly) : Prop where
  records : assembly.records <+: next.records
  classNames : assembly.classNames <+: next.classNames

theorem Grows.trans
    {assembly next last : Assembly}
    (first : assembly.Grows next)
    (second : next.Grows last) :
    assembly.Grows last :=
  ⟨first.records.trans second.records, first.classNames.trans second.classNames⟩

theorem grows_of_addEvent
    {contract contractClass : Text}
    {assembly next : Assembly}
    {event : EventEntry}
    {logs : List LogRecord}
    (added : addEvent contract contractClass assembly event = .ok (next, logs)) :
    assembly.Grows next := by
  rcases addEvent_cases added with ⟨-, rfl⟩ | ⟨-, _, _, _, -, -, -, rfl⟩
  · exact ⟨List.prefix_rfl, List.prefix_rfl⟩
  · exact ⟨prefix_addRecords _ _, List.prefix_append _ _⟩

/-- Whatever contracts are added, records and class names stay where they are. -/
theorem grows_of_addContracts
    {suffix : Text}
    {assembly next : Assembly}
    {added : List (Text × Text × Interface)}
    {logs : List LogRecord}
    (ran : addContracts suffix assembly added = .ok (next, logs)) :
    assembly.Grows next :=
  holds_of_addContracts (fun added grows => grows.trans (grows_of_addEvent added))
    (fun _ grows => grows.trans ⟨prefix_addRecords _ _, List.prefix_append _ _⟩) ran
    ⟨List.prefix_rfl, List.prefix_rfl⟩

/-- An assembly goes on from another one with the given events. -/
structure Continues (events : List (Text × EventEntry)) (assembly longer : Assembly) :
    Prop where
  contracts : assembly.contracts <+: longer.contracts
  eventTypes : assembly.eventTypes <+: longer.eventTypes
  records : assembly.records <+: longer.records
  classNames : assembly.classNames ⊆ longer.classNames
  descriptionKeys :
    assembly.eventDescriptions.map (·.1) <+: longer.eventDescriptions.map (·.1)
  classKeys : assembly.eventClasses.map (·.1) <+: longer.eventClasses.map (·.1)
  descriptions :
    ∀ hash, longer.eventDescriptions.get? hash ≠ assembly.eventDescriptions.get? hash →
      ∃ event ∈ events, event.2.signatureHash? event.1 = some hash
  classes :
    ∀ hash, longer.eventClasses.get? hash ≠ assembly.eventClasses.get? hash →
      ∃ event ∈ events, event.2.signatureHash? event.1 = some hash

/-- Contracts are added to an assembly without disturbing it. -/
theorem continues_of_addContracts
    {suffix : Text}
    {assembly longer : Assembly}
    {added : List (Text × Text × Interface)}
    {logs : List LogRecord}
    (ran : addContracts suffix assembly added = .ok (longer, logs)) :
    Continues (added.flatMap fun (_, name, interface) =>
      CompilerOutput.namedEventsOf name interface) assembly longer := by
  obtain ⟨contracts, events, extends_, -, eventsBind⟩ := extends_of_addContracts ran
  have grows := grows_of_addContracts ran
  have declared :
      ∀ hash, (∃ bound ∈ events, bound.hash = hash) →
        ∃ event ∈ added.flatMap fun (_, name, interface) =>
          CompilerOutput.namedEventsOf name interface,
          event.2.signatureHash? event.1 = some hash := by
    rintro hash ⟨bound, isBound, rfl⟩
    obtain ⟨event, isEvent, binds⟩ := exists_of_forall₂ eventsBind isBound
    refine ⟨event, isEvent, ?_⟩
    rw [EventEntry.signatureHash?, binds.described, BoundEvent.hash]
  refine
    { contracts := by rw [extends_.contracts]; exact List.prefix_append _ _
      eventTypes := by rw [extends_.eventTypes]; exact List.prefix_append _ _
      records := grows.records
      classNames := grows.classNames.subset
      descriptionKeys := by
        rw [extends_.eventDescriptions]
        exact Keyed.map_fst_prefix_foldl_put _ _ _ _
      classKeys := by
        rw [extends_.eventClasses]
        exact Keyed.map_fst_prefix_foldl_put _ _ _ _
      descriptions := fun hash differs => declared hash ?_
      classes := fun hash differs => declared hash ?_ }
  · rw [extends_.eventDescriptions] at differs
    exact Keyed.exists_of_get?_foldl_put_ne differs
  · rw [extends_.eventClasses] at differs
    exact Keyed.exists_of_get?_foldl_put_ne differs

/-- A document that is assembled can be cut short: its first contracts are assembled, and
the others are added to their assembly. -/
theorem exists_middle_of_ofOutput
    {suffix : Text}
    {output longer : CompilerOutput}
    {others : List (Text × Text × Interface)}
    (goesOn : longer.contracts = output.contracts ++ others)
    {last : Assembly}
    {logs : List LogRecord}
    (assembled : ofOutput suffix longer = .ok (last, logs)) :
    ∃ middle middleLogs otherLogs,
      ofOutput suffix output = .ok (middle, middleLogs) ∧
        addContracts suffix middle others = .ok (last, otherLogs) ∧
          logs = middleLogs ++ otherLogs := by
  have ran : addContracts suffix empty longer.contracts = .ok (last, logs) := assembled
  rw [goesOn, addContracts_append] at ran
  simp only [bind_eq_ok_iff, pure_eq_ok_iff] at ran
  obtain ⟨⟨middle, middleLogs⟩, ranFirst, ⟨_, otherLogs⟩, ranOthers, same⟩ := ran
  cases same
  exact ⟨middle, middleLogs, otherLogs, ranFirst, ranOthers, rfl⟩

/-- If the contracts of a document are the first ones of another document, the assembly of
the other one goes on from the assembly of the first with the events of the other
contracts. -/
theorem continues_of_prefix
    {suffix : Text}
    {output longer : CompilerOutput}
    {others : List (Text × Text × Interface)}
    (goesOn : longer.contracts = output.contracts ++ others)
    {assembly last : Assembly}
    {logs lastLogs : List LogRecord}
    (assembled : ofOutput suffix output = .ok (assembly, logs))
    (assembledLonger : ofOutput suffix longer = .ok (last, lastLogs)) :
    Continues (others.flatMap fun (_, name, interface) =>
      CompilerOutput.namedEventsOf name interface) assembly last := by
  obtain ⟨middle, _, _, ofFirst, ofOthers, -⟩ := exists_middle_of_ofOutput goesOn assembledLonger
  rw [assembled] at ofFirst
  cases ofFirst
  exact continues_of_addContracts ofOthers

/-- The first contracts of `mixedOutput`. -/
def firstOutput : CompilerOutput :=
  ⟨[("s", [("A", mixedEntries), ("N", [])])]⟩

/-- The last contract of `mixedOutput`, which declares the event of the first one again. -/
def lastContract : Text × Text × Interface :=
  ("s", "B", [.event (noteEvent "on" "text" false),
    .event { noteEvent "a" "b" false with name := [] }])

theorem continues_of_prefix_mixed :
    (mixedOutput mixedEntries).contracts = firstOutput.contracts ++ [lastContract] ∧
      ∃ assembly last logs lastLogs,
        ofOutput "_" firstOutput = .ok (assembly, logs) ∧
          ofOutput "_" (mixedOutput mixedEntries) = .ok (last, lastLogs) ∧
            Continues (CompilerOutput.namedEventsOf "B" lastContract.2.2) assembly last := by
  have goesOn :
      (mixedOutput mixedEntries).contracts = firstOutput.contracts ++ [lastContract] := by
    rfl
  obtain ⟨last, lastLogs, assembledLonger⟩ :
      ∃ last lastLogs, ofOutput "_" (mixedOutput mixedEntries) = .ok (last, lastLogs) :=
    ⟨_, _, rfl⟩
  obtain ⟨assembly, logs, -, assembled, -⟩ := exists_middle_of_ofOutput goesOn assembledLonger
  exact ⟨goesOn, assembly, last, logs, lastLogs, assembled, assembledLonger,
    continues_of_prefix goesOn assembled assembledLonger⟩

end Assembly

end ContractBindings
