import Mathlib.Data.List.Forall2
import ContractBindings.Binding.Assembly
import ContractBindings.Proofs.BindingSteps

namespace ContractBindings

/-!
# The steps of an assembly

An assembly is made in one pass, which updates the contracts, the events and two
registries as it goes.  A step adds an event or a contract without its events.  The
step lemmas say all that a step can do.  What every step keeps holds after every run,
and a run of steps appends what its steps append, one after another.
-/

namespace Keyed

/-- A first entry is found under its key, and no other entry. -/
theorem get?_cons
    (entries : Keyed α)
    (key : Text)
    (value : α)
    (other : Text) :
    get? other ((key, value) :: entries) =
      if other = key then some value else entries.get? other := by
  rw [get?, List.lookup_cons]
  by_cases isKey : other = key
  · rw [if_pos isKey, beq_iff_eq.mpr isKey]
  · rw [if_neg isKey, beq_eq_false_iff_ne.mpr isKey]
    rfl

/-- A value is found under its key, and what is under other keys stays. -/
theorem get?_put
    (entries : Keyed α)
    (key : Text)
    (value : α)
    (other : Text) :
    (entries.put key value).get? other =
      if other = key then some value else entries.get? other := by
  induction entries with
  | nil =>
      rw [put, get?_cons]
  | cons entry entries inductionHypothesis =>
      obtain ⟨first, old⟩ := entry
      rw [put, get?_cons]
      by_cases isFirst : first = key
      · rw [if_pos isFirst, get?_cons, isFirst]
        split <;> rfl
      · rw [if_neg isFirst, get?_cons, inductionHypothesis]
        by_cases isKey : other = key
        · rw [if_pos isKey, if_pos isKey, if_neg fun same => isFirst (same.symm.trans isKey)]
        · rw [if_neg isKey, if_neg isKey]

/-- What is stored is the new value or was stored before. -/
theorem eq_or_mem_of_mem_put
    {entries : Keyed α}
    {key : Text}
    {value : α}
    {entry : Text × α}
    (member : entry ∈ entries.put key value) :
    entry = (key, value) ∨ entry ∈ entries := by
  induction entries with
  | nil =>
      exact Or.inl (List.mem_singleton.mp member)
  | cons first entries inductionHypothesis =>
      obtain ⟨other, old⟩ := first
      rw [put] at member
      split at member
      case isTrue isKey =>
        rcases List.mem_cons.mp member with isFirst | inOthers
        · rw [isFirst, isKey]
          exact Or.inl rfl
        · exact Or.inr (.tail _ inOthers)
      case isFalse =>
        rcases List.mem_cons.mp member with isFirst | inOthers
        · rw [isFirst]
          exact Or.inr (.head _)
        · exact (inductionHypothesis inOthers).imp_right (.tail _)

/-- The value that was put last under a key is found. -/
theorem get?_foldl_put
    (key : β → Text)
    (value : β → α)
    (items : List β)
    (known : Keyed α)
    (wanted : Text) :
    (items.foldl (fun known item => put (key item) (value item) known) known).get? wanted =
      ((items.reverse.find? (key · = wanted)).map value).or (known.get? wanted) := by
  -- What is put first is known to the values after it.
  induction items generalizing known with
  | nil =>
      rfl
  | cons item items inductionHypothesis =>
      rw [List.foldl_cons, inductionHypothesis, get?_put, List.reverse_cons, List.find?_append,
        Option.map_or, Option.or_assoc]
      congr 1
      by_cases isWanted : key item = wanted
      · simp [isWanted]
      · simp [isWanted, Ne.symm isWanted]

end Keyed

namespace EventEntry

/-- The class of an event that is described has the hash of the description. -/
theorem nominalType_of_describe
    {event : EventEntry}
    {contract : Text}
    {description : EventDescription}
    (described : event.describe contract = .ok description)
    (className : Text) :
    event.nominalType contract className =
      (event.inputs.mapM (parameterType (event.place contract))).map fun types =>
        ⟨className, event.name, description.signatureHash,
          (Parameter.keys (event.inputs.map (·.toParameter))).zip types⟩ := by
  rw [describe, bind_eq_ok_iff] at described
  obtain ⟨⟨signature, hash⟩, hashed, same⟩ := described
  cases same
  rw [nominalType, hashed]
  cases event.inputs.mapM (parameterType (event.place contract)) <;> rfl

theorem className_of_nominalType
    {event : EventEntry}
    {contract className : Text}
    {type : EventType}
    (typed : event.nominalType contract className = .ok type) :
    type.className = className := by
  simp only [nominalType, bind_eq_ok_iff, pure_eq_ok_iff] at typed
  obtain ⟨types, -, hashed, -, same⟩ := typed
  cases same
  rfl

end EventEntry

namespace CompilerOutput

def namedEventsOf (contract : Text) (interface : Interface) : List (Text × EventEntry) :=
  ((Entry.events interface).filter (! ·.name.isEmpty)).map (contract, ·)

def contracts (output : CompilerOutput) : List (Text × Text × Interface) :=
  output.sources.flatMap fun (globalName, contracts) =>
    contracts.map fun (name, interface) => (globalName, name, interface)

/-- The events with names, each with its contract, in the order of the document. -/
def namedEvents (output : CompilerOutput) : List (Text × EventEntry) :=
  output.contracts.flatMap fun (_, name, interface) => namedEventsOf name interface

end CompilerOutput

/-- What an event with a name is bound as. -/
structure BoundEvent where
  description : EventDescription
  type : EventType

namespace BoundEvent

/-- The hash under which the event is registered. -/
def hash (bound : BoundEvent) : Text :=
  bound.description.signatureHash

/-- A description and a class are those of an event of a contract. -/
structure Binds (event : Text × EventEntry) (bound : BoundEvent) : Prop where
  described : event.2.describe event.1 = .ok bound.description
  typed : event.2.nominalType event.1 bound.type.className = .ok bound.type

end BoundEvent

namespace FunctionEntry

/-- The functions of a list without those whose name came before. -/
def firstsByName : List FunctionEntry → List FunctionEntry
  | [] => []
  | function :: rest => function :: (firstsByName rest).filter (·.name ≠ function.name)

/-- A function whose name is taken is left out, and with it no function of another name. -/
theorem filter_firstsByName_of_mem
    {bound : List Text}
    {function : FunctionEntry}
    (isBound : function.name ∈ bound)
    (functions : List FunctionEntry) :
    (firstsByName (function :: functions)).filter (! bound.contains ·.name) =
      (firstsByName functions).filter (! bound.contains ·.name) := by
  rw [firstsByName, List.filter_cons_of_neg (by simpa using isBound), List.filter_filter]
  refine List.filter_congr fun other _ => ?_
  by_cases sameName : other.name = function.name
  · simp [sameName, isBound]
  · simp [sameName]

/-- The name of a function that is kept is taken from then on. -/
theorem filter_firstsByName_of_not_mem
    {bound : List Text}
    {function : FunctionEntry}
    (notBound : function.name ∉ bound)
    (functions : List FunctionEntry) :
    (firstsByName (function :: functions)).filter (! bound.contains ·.name) =
      function ::
        (firstsByName functions).filter (! (function.name :: bound).contains ·.name) := by
  rw [firstsByName, List.filter_cons_of_pos (by simpa using notBound), List.filter_filter]
  refine congrArg (List.cons function) (List.filter_congr fun other _ => ?_)
  rw [List.contains_cons, Bool.not_or, Bool.and_comm]
  congr 1
  by_cases sameName : other.name = function.name <;> simp [sameName]

theorem firstsByName_sublist
    (functions : List FunctionEntry) :
    (firstsByName functions).Sublist functions := by
  induction functions with
  | nil =>
      exact .slnil
  | cons function functions inductionHypothesis =>
      exact (List.filter_sublist.trans inductionHypothesis).cons_cons function

end FunctionEntry

namespace FunctionBinding

/-- A binding is the one that is made of a function of a contract. -/
structure Binds (contract suffix : Text) (function : FunctionEntry)
    (binding : FunctionBinding) : Prop where
  abiName : binding.abiName = function.name
  inputs : binding.inputs = function.inputs
  outputs : binding.outputs = function.outputs
  payable : binding.payable = function.payable
  constant : binding.remoteMethod.isNone = function.constant
  made :
    ∃ binder after logs, binder.contract = contract ∧ binder.suffix = suffix ∧
      FunctionBinder.bind binder function = (.ok binding, after, logs)

end FunctionBinding

namespace FunctionBinder

/-- What a binder makes of a function, and that it goes on binding for its contract. -/
theorem binds_of_bind
    {binder after : FunctionBinder}
    {function : FunctionEntry}
    {binding : FunctionBinding}
    {logs : List LogRecord}
    (made : binder.bind function = (.ok binding, after, logs)) :
    FunctionBinding.Binds binder.contract binder.suffix function binding ∧
      after.contract = binder.contract ∧ after.suffix = binder.suffix := by
  have attempt := attempt_bind binder function
  rw [made] at attempt
  cases attempt with
  | bound =>
      refine ⟨⟨rfl, rfl, rfl, rfl, ?_, binder, _, _, rfl, rfl, made⟩, rfl, rfl⟩
      rw [bindingOf]
      cases function.constant <;> rfl

end FunctionBinder

namespace ContractBinding

/-- A binding is that of a contract, with the first function of each name. -/
structure Binds (suffix : Text) (contract : Text × Text × Interface)
    (binding : ContractBinding) : Prop where
  globalName : binding.globalName = contract.1
  contractName : binding.contractName = contract.2.1
  functions :
    List.Forall₂ (FunctionBinding.Binds contract.2.1 suffix)
      (FunctionEntry.firstsByName (Entry.functions contract.2.2)) binding.functions

end ContractBinding

namespace Assembly

/-- A function whose name came before is passed over, and any other is bound first. -/
theorem bindFunctions_cases
    {binder : FunctionBinder}
    {bound : List Text}
    {function : FunctionEntry}
    {functions : List FunctionEntry}
    {bindings : List FunctionBinding}
    {logs : List LogRecord}
    (made : bindFunctions binder bound (function :: functions) = .ok (bindings, logs)) :
    (function.name ∈ bound ∧
        ∃ otherLogs, bindFunctions binder bound functions = .ok (bindings, otherLogs)) ∨
      function.name ∉ bound ∧
        ∃ binding after bindLogs others otherLogs,
          binder.bind function = (.ok binding, after, bindLogs) ∧
            bindFunctions after (function.name :: bound) functions = .ok (others, otherLogs) ∧
              bindings = binding :: others := by
  rw [bindFunctions] at made
  by_cases isBound : function.name ∈ bound
  · rw [if_pos (by simpa using isBound)] at made
    simp only [bind_eq_ok_iff, pure_eq_ok_iff] at made
    obtain ⟨⟨others, otherLogs⟩, ofOthers, same⟩ := made
    cases same
    exact Or.inl ⟨isBound, otherLogs, ofOthers⟩
  · rw [if_neg (by simpa using isBound)] at made
    split at made
    case h_1 =>
      cases made
    case h_2 binding after bindLogs ofFirst =>
      simp only [bind_eq_ok_iff, pure_eq_ok_iff] at made
      obtain ⟨⟨others, otherLogs⟩, ofOthers, same⟩ := made
      cases same
      exact Or.inr ⟨isBound, binding, after, bindLogs, others, otherLogs, ofFirst, ofOthers, rfl⟩

/-- The functions that are bound are those whose name did not come before. -/
theorem forall_of_bindFunctions
    {binder : FunctionBinder}
    {bound : List Text}
    {functions : List FunctionEntry}
    {bindings : List FunctionBinding}
    {logs : List LogRecord}
    (made : bindFunctions binder bound functions = .ok (bindings, logs)) :
    List.Forall₂ (FunctionBinding.Binds binder.contract binder.suffix)
      ((FunctionEntry.firstsByName functions).filter (! bound.contains ·.name)) bindings := by
  -- The names that were bound before filter the first functions of what is left.
  induction functions generalizing binder bound bindings logs with
  | nil =>
      cases made
      exact .nil
  | cons function functions inductionHypothesis =>
      rcases bindFunctions_cases made with
        ⟨isBound, _, ofOthers⟩ | ⟨isNew, binding, after, _, others, _, ofFirst, ofOthers, rfl⟩
      · rw [FunctionEntry.filter_firstsByName_of_mem isBound]
        exact inductionHypothesis ofOthers
      · obtain ⟨binds, sameContract, sameSuffix⟩ := FunctionBinder.binds_of_bind ofFirst
        have othersBind := inductionHypothesis ofOthers
        rw [sameContract, sameSuffix] at othersBind
        rw [FunctionEntry.filter_firstsByName_of_not_mem isNew]
        exact .cons binds othersBind

/-- An assembly with one more contract. -/
def withContract (assembly : Assembly) (contract : ContractBinding) : Assembly :=
  { assembly with
    contracts := assembly.contracts ++ [contract]
    records := addRecords assembly.records (contract.functions.flatMap (·.records))
    classNames := assembly.classNames ++ [contract.className] }

/-- An event without a name is left out, and any other is described, typed and named. -/
theorem addEvent_cases
    {contract contractClass : Text}
    {assembly next : Assembly}
    {event : EventEntry}
    {logs : List LogRecord}
    (added : addEvent contract contractClass assembly event = .ok (next, logs)) :
    (event.name.isEmpty = true ∧ next = assembly) ∨
      event.name.isEmpty = false ∧
        ∃ description eventClass type,
          event.describe contract = .ok description ∧
            className assembly.classNames (contractClass ++ "_" ++ event.name) = .ok eventClass ∧
              event.nominalType contract eventClass = .ok type ∧
                next =
                  { assembly with
                    eventDescriptions :=
                      assembly.eventDescriptions.put description.signatureHash description
                    eventTypes := assembly.eventTypes ++ [type]
                    eventClasses := assembly.eventClasses.put description.signatureHash eventClass
                    records := addRecords assembly.records type.records
                    classNames := assembly.classNames ++ [eventClass] } := by
  rw [addEvent] at added
  cases unnamed : event.name.isEmpty with
  | true =>
      rw [unnamed] at added
      cases added
      exact Or.inl ⟨rfl, rfl⟩
  | false =>
      simp only [unnamed, Bool.false_eq_true, ↓reduceIte, bind_eq_ok_iff, pure_eq_ok_iff]
        at added
      obtain ⟨description, described, eventClass, named, type, typed, same⟩ := added
      cases same
      exact Or.inr ⟨rfl, description, eventClass, type, described, named, typed, rfl⟩

/-- A contract without an interface is left out, and of any other the functions are bound
and the events are added. -/
theorem addContract_cases
    {suffix globalName name : Text}
    {assembly next : Assembly}
    {interface : Interface}
    {logs : List LogRecord}
    (added : addContract suffix globalName assembly name interface = .ok (next, logs)) :
    (interface.isEmpty = true ∧ next = assembly) ∨
      interface.isEmpty = false ∧ suffix.isEmpty = false ∧
        ∃ contractClass functions functionLogs eventLogs,
          className assembly.classNames name = .ok contractClass ∧
            bindFunctions ⟨name, suffix, []⟩ [] (Entry.functions interface) =
                .ok (functions, functionLogs) ∧
              addEvents name contractClass
                  (assembly.withContract ⟨globalName, name, contractClass, functions⟩)
                  (Entry.events interface) =
                .ok (next, eventLogs) := by
  rw [addContract] at added
  cases isEmpty : interface.isEmpty with
  | true =>
      rw [isEmpty] at added
      cases added
      exact Or.inl ⟨rfl, rfl⟩
  | false =>
      simp only [isEmpty, Bool.false_eq_true, ↓reduceIte, bind_eq_ok_iff, pure_eq_ok_iff] at added
      obtain ⟨contractClass, named, binder, started, ⟨functions, functionLogs⟩, ofFunctions,
        ⟨last, eventLogs⟩, addedEvents, same⟩ := added
      cases same
      rw [FunctionBinder.start] at started
      split at started
      case isTrue =>
        cases started
      case isFalse hasSuffix =>
        cases started
        exact Or.inr ⟨rfl, eq_false_of_ne_true hasSuffix, contractClass, functions, functionLogs,
          eventLogs, named, ofFunctions, addedEvents⟩

/-- What every contract with its events keeps, a whole run keeps. -/
theorem holds_of_eachContract
    {motive : Assembly → Prop}
    {suffix : Text}
    (keptByEach :
      ∀ {globalName name : Text} {assembly next : Assembly} {interface : Interface}
        {logs : List LogRecord},
        addContract suffix globalName assembly name interface = .ok (next, logs) →
          motive assembly → motive next)
    {assembly next : Assembly}
    {added : List (Text × Text × Interface)}
    {logs : List LogRecord}
    (ran : addContracts suffix assembly added = .ok (next, logs))
    (holds : motive assembly) :
    motive next := by
  induction added generalizing assembly logs with
  | nil =>
      cases ran
      exact holds
  | cons contract added inductionHypothesis =>
      obtain ⟨globalName, name, interface⟩ := contract
      simp only [addContracts, bind_eq_ok_iff, pure_eq_ok_iff] at ran
      obtain ⟨⟨first, firstLogs⟩, ranFirst, ⟨last, more⟩, ranRest, same⟩ := ran
      cases same
      exact inductionHypothesis ranRest (keptByEach ranFirst holds)

section

variable {Holds : Assembly → Prop}
  (keptByEvents :
    ∀ {contract contractClass : Text} {assembly next : Assembly} {event : EventEntry}
      {logs : List LogRecord},
      addEvent contract contractClass assembly event = .ok (next, logs) → Holds assembly →
        Holds next)
  (keptByContracts :
    ∀ {assembly : Assembly} {name : Text} {contract : ContractBinding},
      className assembly.classNames name = .ok contract.className → Holds assembly →
        Holds (assembly.withContract contract))

include keptByEvents

/-- What every event keeps, the events of a contract keep. -/
theorem holds_of_addEvents
    {contract contractClass : Text}
    {assembly next : Assembly}
    {entries : List EventEntry}
    {logs : List LogRecord}
    (added : addEvents contract contractClass assembly entries = .ok (next, logs))
    (holds : Holds assembly) :
    Holds next := by
  induction entries generalizing assembly logs with
  | nil =>
      cases added
      exact holds
  | cons event entries inductionHypothesis =>
      simp only [addEvents, bind_eq_ok_iff, pure_eq_ok_iff] at added
      obtain ⟨⟨first, firstLogs⟩, addedFirst, ⟨last, more⟩, addedRest, same⟩ := added
      cases same
      exact inductionHypothesis addedRest (keptByEvents addedFirst holds)

include keptByContracts

/-- What every event and every contract without its events keep, a whole run keeps. -/
theorem holds_of_addContracts
    {suffix : Text}
    {assembly next : Assembly}
    {added : List (Text × Text × Interface)}
    {logs : List LogRecord}
    (ran : addContracts suffix assembly added = .ok (next, logs))
    (holds : Holds assembly) :
    Holds next := by
  refine holds_of_eachContract (fun addedOne holds => ?_) ran holds
  -- The events of a contract are added when its class has its name.
  rcases addContract_cases addedOne with
    ⟨-, rfl⟩ | ⟨-, -, contractClass, functions, _, _, named, -, addedEvents⟩
  · exact holds
  · exact holds_of_addEvents keptByEvents addedEvents (keptByContracts named holds)

end

/-- What steps append to the lists of an assembly and put into its registries. -/
structure Extends (assembly next : Assembly) (contracts : List ContractBinding)
    (events : List BoundEvent) : Prop where
  contracts : next.contracts = assembly.contracts ++ contracts
  eventTypes : next.eventTypes = assembly.eventTypes ++ events.map (·.type)
  eventDescriptions :
    next.eventDescriptions =
      events.foldl (fun known bound => known.put bound.hash bound.description)
        assembly.eventDescriptions
  eventClasses :
    next.eventClasses =
      events.foldl (fun known bound => known.put bound.hash bound.type.className)
        assembly.eventClasses

theorem Extends.refl
    (assembly : Assembly) :
    assembly.Extends assembly [] [] :=
  ⟨by simp, by simp, rfl, rfl⟩

theorem Extends.trans
    {assembly next last : Assembly}
    {contracts otherContracts : List ContractBinding}
    {events otherEvents : List BoundEvent}
    (first : assembly.Extends next contracts events)
    (second : next.Extends last otherContracts otherEvents) :
    assembly.Extends last (contracts ++ otherContracts) (events ++ otherEvents) where
  contracts := by
    rw [second.contracts, first.contracts, List.append_assoc]
  eventTypes := by
    rw [second.eventTypes, first.eventTypes, List.append_assoc, List.map_append]
  eventDescriptions := by
    rw [second.eventDescriptions, first.eventDescriptions, List.foldl_append]
  eventClasses := by
    rw [second.eventClasses, first.eventClasses, List.foldl_append]

theorem extends_withContract
    (assembly : Assembly)
    (contract : ContractBinding) :
    assembly.Extends (assembly.withContract contract) [contract] [] :=
  ⟨rfl, by simp [withContract], rfl, rfl⟩

/-- An event with a name is appended, and put into both registries. -/
theorem extends_of_addEvent
    {contract contractClass : Text}
    {assembly next : Assembly}
    {event : EventEntry}
    {logs : List LogRecord}
    (added : addEvent contract contractClass assembly event = .ok (next, logs)) :
    ∃ events,
      assembly.Extends next [] events ∧
        List.Forall₂ BoundEvent.Binds
          (([event].filter (! ·.name.isEmpty)).map (contract, ·)) events := by
  rcases addEvent_cases added with
    ⟨unnamed, rfl⟩ | ⟨named, description, eventClass, type, described, -, typed, rfl⟩
  · refine ⟨[], .refl _, ?_⟩
    rw [List.filter_cons_of_neg (by simp [unnamed])]
    exact .nil
  · obtain rfl : type.className = eventClass := EventEntry.className_of_nominalType typed
    refine ⟨[⟨description, type⟩], ⟨by simp, rfl, rfl, rfl⟩, ?_⟩
    rw [List.filter_cons_of_pos (by simp [named])]
    exact .cons ⟨described, typed⟩ .nil

/-- The events of a contract are appended one after another. -/
theorem extends_of_addEvents
    {contract contractClass : Text}
    {assembly next : Assembly}
    {entries : List EventEntry}
    {logs : List LogRecord}
    (added : addEvents contract contractClass assembly entries = .ok (next, logs)) :
    ∃ events,
      assembly.Extends next [] events ∧
        List.Forall₂ BoundEvent.Binds
          ((entries.filter (! ·.name.isEmpty)).map (contract, ·)) events := by
  induction entries generalizing assembly logs with
  | nil =>
      cases added
      exact ⟨[], .refl _, .nil⟩
  | cons event entries inductionHypothesis =>
      simp only [addEvents, bind_eq_ok_iff, pure_eq_ok_iff] at added
      obtain ⟨⟨first, firstLogs⟩, addedFirst, ⟨last, more⟩, addedRest, same⟩ := added
      cases same
      obtain ⟨events, firstExtends, binds⟩ := extends_of_addEvent addedFirst
      obtain ⟨others, othersExtend, othersBind⟩ := inductionHypothesis addedRest
      refine ⟨events ++ others, firstExtends.trans othersExtend, ?_⟩
      rw [← List.singleton_append, List.filter_append, List.map_append]
      exact List.rel_append binds othersBind

/-- A contract with an interface is appended, and so are its events. -/
theorem extends_of_addContract
    {suffix : Text}
    (contract : Text × Text × Interface)
    {assembly next : Assembly}
    {logs : List LogRecord}
    (added : addContract suffix contract.1 assembly contract.2.1 contract.2.2 = .ok (next, logs)) :
    ∃ contracts events,
      assembly.Extends next contracts events ∧
        List.Forall₂ (ContractBinding.Binds suffix) ([contract].filter (! ·.2.2.isEmpty))
            contracts ∧
          List.Forall₂ BoundEvent.Binds
            (CompilerOutput.namedEventsOf contract.2.1 contract.2.2) events := by
  obtain ⟨globalName, name, interface⟩ := contract
  rcases addContract_cases added with
    ⟨isEmpty, rfl⟩ |
      ⟨notEmpty, -, contractClass, functions, functionLogs, eventLogs, -, ofFunctions,
        addedEvents⟩
  · refine ⟨[], [], .refl _, ?_, ?_⟩
    · rw [List.filter_cons_of_neg (by simp [isEmpty])]
      exact .nil
    · rw [List.isEmpty_iff.mp isEmpty]
      exact .nil
  · obtain ⟨events, eventsExtend, eventsBind⟩ := extends_of_addEvents addedEvents
    have functionsBind := forall_of_bindFunctions ofFunctions
    have noneBound :
        ∀ entries : List FunctionEntry,
          entries.filter (! ([] : List Text).contains ·.name) = entries :=
      fun entries => List.filter_eq_self.mpr fun _ _ => rfl
    rw [noneBound] at functionsBind
    refine ⟨[⟨globalName, name, contractClass, functions⟩], events,
      (extends_withContract assembly _).trans eventsExtend, ?_, eventsBind⟩
    rw [List.filter_cons_of_pos (by simp [notEmpty])]
    exact .cons ⟨rfl, rfl, functionsBind⟩ .nil

theorem extends_of_addContracts
    {suffix : Text}
    {assembly next : Assembly}
    {added : List (Text × Text × Interface)}
    {logs : List LogRecord}
    (ran : addContracts suffix assembly added = .ok (next, logs)) :
    ∃ contracts events,
      assembly.Extends next contracts events ∧
        List.Forall₂ (ContractBinding.Binds suffix) (added.filter (! ·.2.2.isEmpty)) contracts ∧
          List.Forall₂ BoundEvent.Binds
            (added.flatMap fun (_, name, interface) =>
              CompilerOutput.namedEventsOf name interface) events := by
  induction added generalizing assembly logs with
  | nil =>
      cases ran
      exact ⟨[], [], .refl _, .nil, .nil⟩
  | cons contract added inductionHypothesis =>
      obtain ⟨globalName, name, interface⟩ := contract
      simp only [addContracts, bind_eq_ok_iff, pure_eq_ok_iff] at ran
      obtain ⟨⟨first, firstLogs⟩, ranFirst, ⟨last, more⟩, ranRest, same⟩ := ran
      cases same
      obtain ⟨contracts, events, firstExtends, contractsBind, eventsBind⟩ :=
        extends_of_addContract (globalName, name, interface) ranFirst
      obtain ⟨otherContracts, otherEvents, othersExtend, otherContractsBind, otherEventsBind⟩ :=
        inductionHypothesis ranRest
      refine ⟨contracts ++ otherContracts, events ++ otherEvents, firstExtends.trans othersExtend,
        ?_, List.rel_append eventsBind otherEventsBind⟩
      rw [← List.singleton_append, List.filter_append]
      exact List.rel_append contractsBind otherContractsBind

/-- An assembly is that of nothing with what its contracts and their events append. -/
theorem extends_of_ofOutput
    {suffix : Text}
    {output : CompilerOutput}
    {assembly : Assembly}
    {logs : List LogRecord}
    (assembled : ofOutput suffix output = .ok (assembly, logs)) :
    ∃ contracts events,
      empty.Extends assembly contracts events ∧
        List.Forall₂ (ContractBinding.Binds suffix) (output.contracts.filter (! ·.2.2.isEmpty))
            contracts ∧
          List.Forall₂ BoundEvent.Binds output.namedEvents events :=
  extends_of_addContracts assembled

/-- Every function that is bound stands in the document. -/
theorem exists_function_of_ofOutput
    {suffix : Text}
    {output : CompilerOutput}
    {assembly : Assembly}
    {logs : List LogRecord}
    (assembled : ofOutput suffix output = .ok (assembly, logs))
    {contract : ContractBinding}
    (isContract : contract ∈ assembly.contracts)
    {binding : FunctionBinding}
    (isFunction : binding ∈ contract.functions) :
    ∃ source ∈ output.contracts, ∃ function ∈ Entry.functions source.2.2,
      FunctionBinding.Binds source.2.1 suffix function binding := by
  obtain ⟨contracts, events, ran, contractsBind, -⟩ := extends_of_ofOutput assembled
  rw [ran.contracts, empty, List.nil_append] at isContract
  obtain ⟨source, isSource, contractBinds⟩ := exists_of_forall₂ contractsBind isContract
  obtain ⟨function, isFirst, binds⟩ := exists_of_forall₂ contractBinds.functions isFunction
  exact ⟨source, List.mem_of_mem_filter isSource, function,
    (FunctionEntry.firstsByName_sublist _).subset isFirst, binds⟩

/-- Every class of events is that of an event of the document. -/
theorem exists_event_of_ofOutput
    {suffix : Text}
    {output : CompilerOutput}
    {assembly : Assembly}
    {logs : List LogRecord}
    (assembled : ofOutput suffix output = .ok (assembly, logs))
    {type : EventType}
    (isType : type ∈ assembly.eventTypes) :
    ∃ event ∈ output.namedEvents, ∃ description, BoundEvent.Binds event ⟨description, type⟩ := by
  obtain ⟨contracts, events, ran, -, eventsBind⟩ := extends_of_ofOutput assembled
  rw [ran.eventTypes, empty, List.nil_append] at isType
  obtain ⟨bound, isBound, rfl⟩ := List.mem_map.mp isType
  obtain ⟨event, isEvent, binds⟩ := exists_of_forall₂ eventsBind isBound
  exact ⟨event, isEvent, bound.description, binds⟩

end Assembly

end ContractBindings
