import ContractBindings.Proofs.AssemblySteps

namespace ContractBindings

/-!
# The registry of an assembly

An assembly registers the events with names one after another, in the order of
the document.  Under a hash the registry has the description of the event that
came last among those whose logs begin with the hash.
-/

namespace EventEntry

/-- The hash with which the logs of an event begin, in digits. -/
def signatureHash? (event : EventEntry) (contract : Text) : Option Text :=
  match event.describe contract with
  | .ok description => some description.signatureHash
  | .error _ => none

end EventEntry

namespace CompilerOutput

/-- The event that comes last among those whose logs begin with a hash. -/
def lastEvent? (output : CompilerOutput) (hash : Text) : Option (Text × EventEntry) :=
  output.namedEvents.reverse.find? fun (contract, event) =>
    event.signatureHash? contract = some hash

end CompilerOutput

namespace Assembly

/-- Registers descriptions one after another. -/
def register (known : Keyed EventDescription) (new : List EventDescription) :
    Keyed EventDescription :=
  new.foldl (fun known description => known.put description.signatureHash description) known

/-- The description that was registered last under a hash is found, or else what was known. -/
theorem get?_register
    (known : Keyed EventDescription)
    (new : List EventDescription)
    (hash : Text) :
    (register known new).get? hash =
      (new.reverse.find? (·.signatureHash = hash)).or (known.get? hash) := by
  rw [register, Keyed.get?_foldl_put, Option.map_id']

/-- Descriptions of events with their contracts. -/
def describeAll (events : List (Text × EventEntry)) :
    Except BindingFailure (List EventDescription) :=
  events.mapM fun (contract, event) => event.describe contract

/-- The last of several descriptions with a hash is that of the last event with the hash. -/
theorem find?_describeAll
    {events : List (Text × EventEntry)}
    {new : List EventDescription}
    (described : describeAll events = .ok new)
    (hash : Text) :
    new.reverse.find? (·.signatureHash = hash) =
      (events.reverse.find? fun (contract, event) =>
          event.signatureHash? contract = some hash).bind
        fun (contract, event) => (event.describe contract).toOption := by
  induction events generalizing new with
  | nil =>
      cases described
      rfl
  | cons first events inductionHypothesis =>
      obtain ⟨contract, event⟩ := first
      simp only [describeAll, List.mapM_cons, bind_eq_ok_iff, pure_eq_ok_iff] at described
      obtain ⟨description, ofFirst, rest, ofRest, rfl⟩ := described
      rw [List.reverse_cons, List.reverse_cons, List.find?_append, List.find?_append,
        inductionHypothesis ofRest]
      cases found : events.reverse.find? fun (contract, event) =>
          event.signatureHash? contract = some hash with
      | some last =>
          have hasHash := List.find?_some found
          obtain ⟨lastContract, lastEvent⟩ := last
          simp only [EventEntry.signatureHash?] at hasHash
          cases ofLast : lastEvent.describe lastContract with
          | ok lastDescription =>
              simp [ofLast, Except.toOption]
          | error failure =>
              simp [ofLast] at hasHash
      | none =>
          by_cases isHash : description.signatureHash = hash <;>
            simp [EventEntry.signatureHash?, ofFirst, isHash, Except.toOption]

/-- The named events of an output are registered in its assembly. -/
theorem register_of_ofOutput
    {suffix : Text}
    {output : CompilerOutput}
    {assembly : Assembly}
    {logs : List LogRecord}
    (assembled : ofOutput suffix output = .ok (assembly, logs)) :
    ∃ new,
      describeAll output.namedEvents = .ok new ∧ assembly.eventDescriptions = register [] new := by
  obtain ⟨_, events, ran, -, eventsBind⟩ := extends_of_ofOutput assembled
  refine ⟨events.map (·.description), mapM_eq_ok_iff.mpr ?_, ?_⟩
  · exact List.forall₂_map_right_iff.mpr (eventsBind.imp fun _ _ binds => binds.described)
  · rw [ran.eventDescriptions, register, List.foldl_map]
    rfl

theorem describe_of_namedEvent
    {suffix : Text}
    {output : CompilerOutput}
    {assembly : Assembly}
    {logs : List LogRecord}
    (assembled : ofOutput suffix output = .ok (assembly, logs))
    {contract : Text}
    {event : EventEntry}
    (isNamed : (contract, event) ∈ output.namedEvents) :
    ∃ description, event.describe contract = .ok description := by
  obtain ⟨new, described, -⟩ := register_of_ofOutput assembled
  exact exists_of_mapM described isNamed

/-- Among the events with the hash of a named event there is a last one. -/
theorem lastEvent?_of_namedEvent
    {output : CompilerOutput}
    {contract : Text}
    {event : EventEntry}
    (isNamed : (contract, event) ∈ output.namedEvents)
    {description : EventDescription}
    (described : event.describe contract = .ok description) :
    ∃ lastContract lastEvent,
      output.lastEvent? description.signatureHash = some (lastContract, lastEvent) := by
  have hasHash : event.signatureHash? contract = some description.signatureHash := by
    rw [EventEntry.signatureHash?, described]
  have isFound : (output.lastEvent? description.signatureHash).isSome = true := by
    rw [CompilerOutput.lastEvent?, List.find?_isSome]
    exact ⟨(contract, event), List.mem_reverse.mpr isNamed, by simpa using hasHash⟩
  obtain ⟨last, found⟩ := Option.isSome_iff_exists.mp isFound
  exact ⟨last.1, last.2, found⟩

/-- The last event with a hash has a description with the hash. -/
theorem describe_of_lastEvent?
    {output : CompilerOutput}
    {hash contract : Text}
    {event : EventEntry}
    (isLast : output.lastEvent? hash = some (contract, event)) :
    ∃ description,
      event.describe contract = .ok description ∧ description.signatureHash = hash := by
  have hasHash := List.find?_some isLast
  simp only [EventEntry.signatureHash?] at hasHash
  cases described : event.describe contract with
  | ok description =>
      simp only [described, Option.some.injEq, decide_eq_true_eq] at hasHash
      exact ⟨description, rfl, hasHash⟩
  | error failure =>
      simp [described] at hasHash

/-- Under a hash the registry has the description of the last event with the hash. -/
theorem get?_eventDescriptions
    {suffix : Text}
    {output : CompilerOutput}
    {assembly : Assembly}
    {logs : List LogRecord}
    (assembled : ofOutput suffix output = .ok (assembly, logs))
    {hash contract : Text}
    {event : EventEntry}
    (isLast : output.lastEvent? hash = some (contract, event))
    {description : EventDescription}
    (described : event.describe contract = .ok description) :
    assembly.eventDescriptions.get? hash = some description := by
  obtain ⟨new, allDescribed, registered⟩ := register_of_ofOutput assembled
  have nothing : Keyed.get? hash ([] : Keyed EventDescription) = none := by
    rfl
  have found := find?_describeAll allDescribed hash
  rw [CompilerOutput.lastEvent?] at isLast
  rw [isLast, Option.bind_some] at found
  simp only [described, Except.toOption] at found
  rw [registered, get?_register, nothing, Option.or_none, found]

end Assembly

end ContractBindings
