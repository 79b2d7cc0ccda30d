import Mathlib.Data.List.Induction
import Mathlib.Order.Fin.Basic
import ContractBindings.Proofs.AssemblySteps
import ContractBindings.Proofs.EventReplacement

namespace ContractBindings

/-!
# What an assembly is made of

Main statement: an assembly is what a reader of the document would collect from it,
list by list: the contracts with an interface, the first function of each name, the
events with a name, and under each hash the last of these events.  Nothing else in the
document changes the outcome.
-/

namespace Keyed

/-- A new key comes last, and a known one stays where it is. -/
theorem map_fst_put
    (entries : Keyed α)
    (key : Text)
    (value : α) :
    (entries.put key value).map (·.1) =
      if key ∈ entries.map (·.1) then entries.map (·.1) else entries.map (·.1) ++ [key] := by
  induction entries with
  | nil =>
      rfl
  | cons entry entries inductionHypothesis =>
      obtain ⟨first, old⟩ := entry
      rw [put]
      by_cases isFirst : first = key
      · simp [isFirst]
      · rw [if_neg isFirst, List.map_cons, inductionHypothesis, List.map_cons]
        by_cases isKnown : key ∈ entries.map (·.1)
        · rw [if_pos isKnown, if_pos (List.mem_cons_of_mem first isKnown)]
        · have isNew : key ∉ first :: entries.map (·.1) := by
            simpa [Ne.symm isFirst] using isKnown
          rw [if_neg isKnown, if_neg isNew, List.cons_append]

/-- Values put one after another stand in the order in which their keys first come. -/
theorem map_fst_foldl_put
    (key : β → Text)
    (value : β → α)
    (items : List β) :
    (items.foldl (fun known item => put (key item) (value item) known) []).map (·.1) =
      (items.map key).eraseDups := by
  -- From the right: the last key is among the keys before it, or it is new.
  induction items using List.reverseRecOn with
  | nil =>
      rfl
  | append_singleton items item inductionHypothesis =>
      rw [List.foldl_append, List.foldl_cons, List.foldl_nil, map_fst_put, inductionHypothesis,
        List.map_append, List.map_singleton, List.eraseDups_append]
      by_cases isKnown : key item ∈ items.map key
      · have removed : [key item].removeAll (items.map key) = [] :=
          List.filter_cons_of_neg (by simpa using isKnown)
        rw [if_pos (List.mem_eraseDups.mpr isKnown), removed, List.eraseDups_nil, List.append_nil]
      · have kept : [key item].removeAll (items.map key) = [key item] :=
          List.filter_cons_of_pos (by simpa using isKnown)
        rw [if_neg fun known => isKnown (List.mem_eraseDups.mp known), kept]
        rfl

end Keyed

namespace BoundEvent

/-- The class of an event has the hash of its description. -/
theorem Binds.signatureHash_type
    {event : Text × EventEntry}
    {bound : BoundEvent}
    (binds : Binds event bound) :
    bound.type.signatureHash = bound.hash := by
  have typed := binds.typed
  rw [EventEntry.nominalType_of_describe binds.described, map_eq_ok_iff] at typed
  obtain ⟨types, -, same⟩ := typed
  rw [← same, hash]

/-- The hash of an event is that of its signature. -/
theorem Binds.topicHash_signature
    {event : Text × EventEntry}
    {bound : BoundEvent}
    (binds : Binds event bound) :
    ∃ digest, topicHash bound.description.signature = .ok digest ∧
      bound.hash = Octets.toHex digest := by
  have described := binds.described
  simp only [EventEntry.describe, EventEntry.hashedSignature, bind_eq_ok_iff,
    mapError_eq_ok_iff, pure_eq_ok_iff] at described
  obtain ⟨_, ⟨signature, -, digest, isDigest, rfl⟩, same⟩ := described
  rw [hash, ← same]
  exact ⟨digest, isDigest, rfl⟩

end BoundEvent

namespace Assembly

/-- What a reader of the document collects from it: the contracts with an interface, the
events with a name, and under each hash the last event that has it, the hashes in the order
in which they first come. -/
structure MeetsReference (suffix : Text) (output : CompilerOutput) (assembly : Assembly)
    (bounds : List BoundEvent) : Prop where
  contracts :
    List.Forall₂ (ContractBinding.Binds suffix) (output.contracts.filter (! ·.2.2.isEmpty))
      assembly.contracts
  events : List.Forall₂ BoundEvent.Binds output.namedEvents bounds
  eventTypes : assembly.eventTypes = bounds.map (·.type)
  descriptionKeys : assembly.eventDescriptions.map (·.1) = (bounds.map (·.hash)).eraseDups
  classKeys : assembly.eventClasses.map (·.1) = (bounds.map (·.hash)).eraseDups
  descriptions :
    ∀ hash, assembly.eventDescriptions.get? hash =
      (bounds.reverse.find? (·.hash = hash)).map (·.description)
  classes :
    ∀ hash, assembly.eventClasses.get? hash =
      (bounds.reverse.find? (·.hash = hash)).map (·.type.className)
  keysAreHashes :
    ∀ hash description, assembly.eventDescriptions.get? hash = some description →
      ∃ digest, topicHash description.signature = .ok digest ∧ hash = Octets.toHex digest
  classesAreTypes :
    ∀ hash className, assembly.eventClasses.get? hash = some className →
      ∃ type ∈ assembly.eventTypes, type.className = className ∧ type.signatureHash = hash

/-- An assembly that extends that of nothing is what a reader collects. -/
theorem Extends.meetsReference
    {suffix : Text}
    {output : CompilerOutput}
    {assembly : Assembly}
    {events : List BoundEvent}
    {contracts : List ContractBinding}
    (extends_ : empty.Extends assembly contracts events)
    (contractsBind :
      List.Forall₂ (ContractBinding.Binds suffix) (output.contracts.filter (! ·.2.2.isEmpty))
        contracts)
    (eventsBind : List.Forall₂ BoundEvent.Binds output.namedEvents events) :
    MeetsReference suffix output assembly events := by
  have nothing : ∀ (α : Type) (hash : Text), Keyed.get? hash ([] : Keyed α) = none :=
    fun _ _ => rfl
  have descriptions :
      ∀ hash, assembly.eventDescriptions.get? hash =
        (events.reverse.find? (·.hash = hash)).map (·.description) := by
    intro hash
    rw [extends_.eventDescriptions, Keyed.get?_foldl_put, empty, nothing, Option.or_none]
  have classes :
      ∀ hash, assembly.eventClasses.get? hash =
        (events.reverse.find? (·.hash = hash)).map (·.type.className) := by
    intro hash
    rw [extends_.eventClasses, Keyed.get?_foldl_put, empty, nothing, Option.or_none]
  have bound :
      ∀ {hash event}, events.reverse.find? (·.hash = hash) = some event →
        event.hash = hash ∧ event ∈ events ∧ ∃ entry, BoundEvent.Binds entry event := by
    intro hash event found
    have member : event ∈ events := List.mem_reverse.mp (List.mem_of_find?_eq_some found)
    exact ⟨by simpa using List.find?_some found, member,
      (exists_of_forall₂ eventsBind member).imp fun _ => And.right⟩
  have eventTypes : assembly.eventTypes = events.map (·.type) :=
    extends_.eventTypes
  refine
    { contracts := by rw [extends_.contracts]; exact contractsBind
      events := eventsBind
      eventTypes
      descriptionKeys := by rw [extends_.eventDescriptions]; exact Keyed.map_fst_foldl_put _ _ _
      classKeys := by rw [extends_.eventClasses]; exact Keyed.map_fst_foldl_put _ _ _
      descriptions
      classes
      keysAreHashes := ?_
      classesAreTypes := ?_ }
  · intro hash description found
    rw [descriptions, Option.map_eq_some_iff] at found
    obtain ⟨event, isLast, rfl⟩ := found
    obtain ⟨rfl, -, entry, binds⟩ := bound isLast
    exact binds.topicHash_signature
  · intro hash className found
    rw [classes, Option.map_eq_some_iff] at found
    obtain ⟨event, isLast, rfl⟩ := found
    obtain ⟨rfl, member, entry, binds⟩ := bound isLast
    rw [eventTypes]
    exact ⟨event.type, List.mem_map_of_mem member, rfl, binds.signatureHash_type⟩

/-- Contracts of one name with the same functions and the same events, each in order, and
both or neither with an interface. -/
structure SameParts (contract other : Text × Text × Interface) : Prop where
  globalName : contract.1 = other.1
  name : contract.2.1 = other.2.1
  functions : Entry.functions contract.2.2 = Entry.functions other.2.2
  events : Entry.events contract.2.2 = Entry.events other.2.2
  isEmpty : contract.2.2.isEmpty = other.2.2.isEmpty

/-- Nothing else of contracts is looked at. -/
theorem addContracts_of_sameParts
    {contracts others : List (Text × Text × Interface)}
    (alike : List.Forall₂ SameParts contracts others)
    (suffix : Text)
    (assembly : Assembly) :
    addContracts suffix assembly contracts = addContracts suffix assembly others := by
  induction alike generalizing assembly with
  | nil =>
      rfl
  | @cons contract other contracts others same _ inductionHypothesis =>
      have sameFirst :
          addContract suffix contract.1 assembly contract.2.1 contract.2.2 =
            addContract suffix other.1 assembly other.2.1 other.2.2 := by
        rw [addContract, addContract, same.globalName, same.name, same.functions, same.events,
          same.isEmpty]
      rw [addContracts, addContracts, sameFirst]
      refine congrArg _ (funext fun added => ?_)
      obtain ⟨next, logs⟩ := added
      dsimp only
      rw [inductionHypothesis]

/-- An assembly is what a reader collects from the document, and other documents with the
same parts have the same outcome. -/
theorem meetsReference_of_ofOutput
    {suffix : Text}
    {output : CompilerOutput}
    {assembly : Assembly}
    {logs : List LogRecord}
    (assembled : ofOutput suffix output = .ok (assembly, logs)) :
    (∃ events, MeetsReference suffix output assembly events) ∧
      ∀ other : CompilerOutput, List.Forall₂ SameParts output.contracts other.contracts →
        ofOutput suffix other = .ok (assembly, logs) := by
  refine ⟨?_, fun other alike => ?_⟩
  · obtain ⟨contracts, events, ran, contractsBind, eventsBind⟩ :=
      extends_of_ofOutput assembled
    exact ⟨events, ran.meetsReference contractsBind eventsBind⟩
  · rw [← assembled]
    exact (addContracts_of_sameParts alike suffix empty).symm

/-- A function without parameters, whose name another function has too. -/
def sharedFunction (payable : Bool) : FunctionEntry :=
  ⟨"f", [], [], false, payable, none⟩

/-- The entries of a contract in the given order, one without an interface, and one that
declares the event again and another event without a name. -/
def mixedOutput (entries : Interface) : CompilerOutput :=
  ⟨[("s", [("A", entries), ("N", []),
    ("B", [.event (noteEvent "on" "text" false),
      .event { noteEvent "a" "b" false with name := [] }])])]⟩

/-- Functions and an event of one contract, with a constructor between them. -/
def mixedEntries : Interface :=
  [.function (sharedFunction true), .event (noteEvent "flag" "note" true), .other "constructor",
    .function (sharedFunction false)]

/-- The same functions and the same event. -/
def sortedEntries : Interface :=
  [.event (noteEvent "flag" "note" true), .function (sharedFunction true),
    .function (sharedFunction false)]

theorem meetsReference_of_ofOutput_mixed :
    ∃ assembly logs,
      ofOutput "_" (mixedOutput mixedEntries) = .ok (assembly, logs) ∧
        (∃ events, MeetsReference "_" (mixedOutput mixedEntries) assembly events) ∧
          ofOutput "_" (mixedOutput sortedEntries) = .ok (assembly, logs) := by
  obtain ⟨assembly, logs, assembled⟩ :
      ∃ assembly logs, ofOutput "_" (mixedOutput mixedEntries) = .ok (assembly, logs) :=
    ⟨_, _, rfl⟩
  obtain ⟨reference, others⟩ := meetsReference_of_ofOutput assembled
  have alike :
      List.Forall₂ SameParts (mixedOutput mixedEntries).contracts
        (mixedOutput sortedEntries).contracts :=
    .cons ⟨rfl, rfl, rfl, rfl, rfl⟩
      (.cons ⟨rfl, rfl, rfl, rfl, rfl⟩ (.cons ⟨rfl, rfl, rfl, rfl, rfl⟩ .nil))
  exact ⟨assembly, logs, assembled, reference, others _ alike⟩

end Assembly

end ContractBindings
