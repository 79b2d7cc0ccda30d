import ContractBindings.Binding.Event
import ContractBindings.Binding.Function
import ContractBindings.Value

namespace ContractBindings

/-!
# Assembling a module

The contracts of a compiler output are folded, in order, into one assembly.
Contracts without an interface are skipped, of functions with the same name
the first is bound, and events without a name are left out.  An event replaces
an earlier one of any contract with the same signature in the registry by
which logs are decoded; both keep their classes.
-/

/-- A contract with its class and the bindings of its functions. -/
structure ContractBinding where
  globalName : Text
  contractName : Text
  className : Text
  functions : List FunctionBinding

/-- Everything that a generated module defines, in the order of its text. -/
structure Assembly where
  contracts : List ContractBinding
  /-- The registry of events by the hash of their signatures. -/
  eventDescriptions : Keyed EventDescription
  eventTypes : List EventType
  /-- The names of event classes by the hash of the signature of their events. -/
  eventClasses : Keyed Text
  records : List RecordFields
  classNames : List Text

namespace Assembly

/-- The assembly of nothing. -/
def empty : Assembly :=
  ⟨[], [], [], [], [], []⟩

/-- Appends the records that are not there yet. -/
def addRecords (records new : List RecordFields) : List RecordFields :=
  new.foldl (fun known record => if known.contains record then known else known ++ [record])
    records

/-- A result, with what was logged on the way to it. -/
abbrev Logged (α : Type) := α × List LogRecord

/-- The class name for a name, if underscores make it free. -/
def className (taken : List Text) (name : Text) : Except BindingFailure Text :=
  match Names.className? taken name with
  | some name => .ok name
  | none => .error .noFreeName

/-- Tells that a function is left out because another one has its name. -/
def overloaded (contract name : Text) : LogRecord :=
  ⟨.warning, "Overloaded function " ++ contract ++ "." ++ name ++
    " is not supported, only the first declaration is bound"⟩

/-- Binds the functions of a contract, the first of each name. -/
def bindFunctions : (binder : FunctionBinder) → (bound : List Text) →
    List FunctionEntry → Except BindingFailure (Logged (List FunctionBinding))
  | _, _, [] => .ok ([], [])
  | binder, bound, function :: rest =>
      if bound.contains function.name then do
        let (bindings, logs) ← bindFunctions binder bound rest
        return (bindings, overloaded binder.contract function.name :: logs)
      else
        match binder.bind function with
        | (.error failure, _, _) => .error failure
        | (.ok binding, binder, logs) => do
            let (bindings, more) ← bindFunctions binder (function.name :: bound) rest
            return (binding :: bindings, logs ++ more)

/-- Tells that the description of an event takes the place of another one. -/
def replaced (assembly : Assembly) (contract : Text) (description : EventDescription) :
    List LogRecord :=
  match assembly.eventDescriptions.get? description.signatureHash with
  | none => []
  | some _ =>
      [⟨.debug, "Event " ++ description.signature ++ " of " ++ contract ++
        " replaces an already registered event with the same hash"⟩]

/-- Adds an event of a contract with the given class. -/
def addEvent (contract contractClass : Text) (assembly : Assembly) (event : EventEntry) :
    Except BindingFailure (Logged Assembly) := do
  if event.name.isEmpty then return (assembly, [])
  let description ← event.describe contract
  let eventClass ← className assembly.classNames (contractClass ++ "_" ++ event.name)
  let type ← event.nominalType contract eventClass
  let hash := description.signatureHash
  return ({ assembly with
    eventDescriptions := assembly.eventDescriptions.put hash description
    eventTypes := assembly.eventTypes ++ [type]
    eventClasses := assembly.eventClasses.put hash eventClass
    records := addRecords assembly.records type.records
    classNames := assembly.classNames ++ [eventClass] }, assembly.replaced contract description)

/-- Adds the events of a contract one after another. -/
def addEvents (contract contractClass : Text) : Assembly → List EventEntry →
    Except BindingFailure (Logged Assembly)
  | assembly, [] => .ok (assembly, [])
  | assembly, event :: rest => do
      let (assembly, logs) ← addEvent contract contractClass assembly event
      let (assembly, more) ← addEvents contract contractClass assembly rest
      return (assembly, logs ++ more)

/-- Adds a contract of a source unit. -/
def addContract (suffix globalName : Text) (assembly : Assembly) (name : Text)
    (interface : Interface) : Except BindingFailure (Logged Assembly) := do
  if interface.isEmpty then
    return (assembly, [⟨.debug,
      "Skipping contract " ++ globalName ++ ":" ++ name ++ " with empty ABI"⟩])
  let contractClass ← className assembly.classNames name
  let binder ← FunctionBinder.start name suffix
  let (functions, logs) ← bindFunctions binder [] (Entry.functions interface)
  let assembly := { assembly with
    contracts := assembly.contracts ++ [⟨globalName, name, contractClass, functions⟩]
    records := addRecords assembly.records (functions.flatMap (·.records))
    classNames := assembly.classNames ++ [contractClass] }
  let (assembly, more) ← addEvents name contractClass assembly (Entry.events interface)
  return (assembly, logs ++ more)

/-- Adds the contracts of a list, each with the name of its source unit. -/
def addContracts (suffix : Text) : Assembly → List (Text × Text × Interface) →
    Except BindingFailure (Logged Assembly)
  | assembly, [] => .ok (assembly, [])
  | assembly, (globalName, name, interface) :: rest => do
      let (assembly, logs) ← addContract suffix globalName assembly name interface
      let (assembly, more) ← addContracts suffix assembly rest
      return (assembly, logs ++ more)

/-- Assembles the contracts of a compiler output. -/
def ofOutput (suffix : Text) (output : CompilerOutput) : Except BindingFailure (Logged Assembly) :=
  addContracts suffix empty <| output.sources.flatMap fun (globalName, contracts) =>
    contracts.map fun (name, interface) => (globalName, name, interface)

/-- Whether all records have names. -/
def isNameable (assembly : Assembly) : Bool :=
  assembly.records.all RecordFields.isNameable

end Assembly

end ContractBindings
