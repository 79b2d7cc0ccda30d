import ContractBindings.Binding.Assembly
import ContractBindings.Text.Quoted

namespace ContractBindings

/-!
# The text of a generated module

The module begins with a preamble that is the same for all assemblies: imports
and one type for each width.  Records, the registry of events, the classes of
events and the classes of contracts follow.  Names are copied as they are,
descriptions and texts are written as literals.
-/

namespace Source

/-- A line of text at a level of indentation, with line breaks behind it. -/
def line (level : Nat) (text : Text) (breaks : Nat) : Text :=
  List.replicate (4 * level) (' ' : CodePoint) ++ text ++
    List.replicate breaks ('\n' : CodePoint)

/-- A text between double quotes, as it is. -/
def inQuotes (t : Text) : Text :=
  "\"" ++ t ++ "\""

/-!
## The preamble
-/

/-- The comment and the imports at the beginning of every module. -/
def imports : List Text :=
  (["# This file was generated by abitypes. Do not edit it manually.",
    "",
    "from __future__ import annotations",
    "",
    "from typing import Dict, List, Optional, TypeVar, Union",
    "",
    "from typing_extensions import Annotated, Literal, TypedDict",
    "",
    "from abitypes.runtime import (",
    "    Brand,",
    "    ByteArray,",
    "    Contract,",
    "    DecodedEvent,",
    "    Dependencies,",
    "    EventDescription,",
    "    ReturnShape,",
    ")",
    "",
    ""] : List String).map Text.ofString

/-- The widest integer type over native integers. -/
def maxNativeBrand : Nat := 48

/-- The definition of an integer type. -/
def integerType (sign : Text) (width : Nat) : Text :=
  let name := sign ++ Text.ofNat width
  let base : Text := if width ≤ maxNativeBrand then "int" else "TLargeInteger"
  line 0 (name ++ " = Annotated[" ++ base ++ ", Brand(" ++ inQuotes name ++ ")]") 1

/-- The definitions of all integer types of a sign. -/
def integerTypes (sign : Text) : Text :=
  Names.integerWidths.flatMap (integerType sign) ++ line 0 [] 1

/-- The class of byte strings of a length, or of any length. -/
def byteClass (name length : Text) : Text :=
  line 0 [] 1 ++ line 0 ("class " ++ name ++ "(ByteArray):") 1 ++
    line 1 ("length = " ++ length) 2

/-- The classes of byte strings of each size. -/
def byteClasses : Text :=
  Names.byteSizes.flatMap fun size => byteClass ("Bytes" ++ Text.ofNat size) (Text.ofNat size)

/-- The types that stand for native values. -/
def primitiveTypes : Text :=
  line 0 "TLargeInteger = TypeVar(\"TLargeInteger\")" 2 ++
    integerTypes "Int" ++ integerTypes "UInt" ++ byteClasses ++
    byteClass "Bytes" "None" ++ byteClass "Address" "20" ++ byteClass "SignatureHash" "4" ++
    line 0 [] 1 ++
    line 0 "NumberLike = Union[int, TLargeInteger]" 1 ++
    line 0 "BytesLike = Union[bytes, ByteArray, str]" 1

/-- What every module begins with. -/
def preamble : Text :=
  imports.flatMap (line 0 · 1) ++ primitiveTypes

/-!
## Records and events
-/

/-- The definition of a record. -/
def recordDefinition (record : RecordFields) : Text :=
  let name := record.name
  let fields := record.map fun (key, type) => key.quoted ++ ": " ++ type.render.quoted
  line 0 (name ++ " = TypedDict(" ++ inQuotes name ++ ", \x7b" ++ Text.join ", " fields ++
    "\x7d)") 1

/-- An entry of the registry of events. -/
def eventDescription (hash : Text) (description : EventDescription) : Text :=
  line 1 (inQuotes hash ++ ": EventDescription(") 1 ++
    line 2 ("name=" ++ description.name.quoted ++ ",") 1 ++
    line 2 ("signature=" ++ description.signature.quoted ++ ",") 1 ++
    line 2 ("signature_hash=" ++ description.signatureHash.quoted ++ ",") 1 ++
    line 2 "parameters=(" 1 ++
    description.parameters.flatMap (fun parameter => line 3 (parameter.literal ++ ",") 1) ++
    line 2 ")," 1 ++
    line 1 ")," 1

/-- The registry of events. -/
def eventDescriptions (descriptions : Keyed EventDescription) : Text :=
  line 0 "event_descriptions: Dict[str, EventDescription] = \x7b" 1 ++
    descriptions.flatMap (fun (hash, description) => eventDescription hash description) ++
    line 0 "\x7d" 2

/-- The class of the decoded events of one kind. -/
def eventClass (type : EventType) : Text :=
  line 0 [] 1 ++
    line 0 ("class " ++ type.className ++ "(DecodedEvent[TLargeInteger]):") 1 ++
    line 1 ("name: Literal[" ++ type.eventName.quoted ++ "]") 1 ++
    line 1 ("parameters: " ++ type.parameters.name) 2

/-- The union of the event classes. -/
def eventUnion (types : List EventType) : Text :=
  match types with
  | [] => line 0 "Event = DecodedEvent[TLargeInteger]" 2
  | types =>
      line 0 ("Event = Union[" ++
        Text.join ", " (types.map fun type => type.className ++ "[TLargeInteger]") ++ "]") 2

/-- The event classes by hash. -/
def eventClasses (classes : Keyed Text) : Text :=
  line 0 "event_types = \x7b" 1 ++
    classes.flatMap (fun (hash, name) => line 1 (inQuotes hash ++ ": " ++ name ++ ",") 1) ++
    line 0 "\x7d" 2

/-!
## Contracts
-/

/-- What a method takes, as documentation. -/
def argumentLines (binding : FunctionBinding) : Text :=
  match binding.parameters with
  | [] => []
  | parameters =>
      line 0 [] 1 ++ line 2 "Args:" 1 ++
        parameters.flatMap fun p => line 3 (p.name ++ ": " ++ p.abiType) 1

/-- What a local method returns, as documentation. -/
def resultLines (binding : FunctionBinding) : Text :=
  match binding.outputs with
  | [] => []
  | outputs =>
      line 0 [] 1 ++ line 2 "Returns:" 1 ++
        outputs.flatMap fun output =>
          line 3 (Text.trimEnd (output.type ++ " " ++ output.name) CodePoint.isBlank) 1

/-- The documentation of a method. -/
def documentation (binding : FunctionBinding) (kind : MethodKind) : Text :=
  let purpose : Text := match kind with
    | .localCall => "Execute " ++ binding.signature ++ " as a call."
    | .remoteCall =>
        "Execute " ++ binding.signature ++ " as a transaction and return the emitted events."
  let results := match kind with
    | .localCall => resultLines binding
    | .remoteCall => []
  line 2 "\"\"\"" 1 ++ line 2 purpose 1 ++ argumentLines binding ++ results ++
    line 2 "\"\"\"" 1

/-- The parameters in the head of a method. -/
def parameterList (binding : FunctionBinding) : Text :=
  let annotated (parameter : MethodParameter) : Text :=
    ", " ++ parameter.name ++ ": " ++ parameter.expression.render
  let payment : Text :=
    if binding.payable then ", *, attached_value: Optional[UInt256[TLargeInteger]] = None"
    else []
  binding.parameters.flatMap annotated ++ payment

/-- The descriptions of parameters as a literal. -/
def descriptionList (parameters : List Parameter) : Text :=
  (Value.list (parameters.map (·.describe))).literal

/-- A method of a function under a name. -/
def method (binding : FunctionBinding) (kind : MethodKind) (name : Text) : Text :=
  let returnType : Text := match kind with
    | .localCall => binding.returnType.render
    | .remoteCall => "List[Event[TLargeInteger]]"
  let callee : Text := match kind with
    | .localCall => "_local_call"
    | .remoteCall => "_remote_call"
  let shape : Text := match binding.returnShape with
    | .void => "VOID"
    | .single => "SINGLE"
    | .record => "RECORD"
  let outputs := match kind with
    | .localCall => line 3 (descriptionList binding.outputs ++ ",") 1
    | .remoteCall => []
  let ending := match kind with
    | .localCall => line 3 ("ReturnShape." ++ shape ++ ",") 1
    | .remoteCall => line 3 (binding.abiName.quoted ++ ",") 1
  let payment := if binding.payable then line 3 "attached_value," 1 else []
  line 1 ("async def " ++ name ++ "(self" ++ parameterList binding ++ ") -> " ++ returnType ++
      ":") 1 ++
    documentation binding kind ++
    line 2 ("return await self." ++ callee ++ "(") 1 ++
    line 3 ("bytes.fromhex(" ++ inQuotes (Octets.toHex binding.selector) ++ "),") 1 ++
    line 3 (descriptionList binding.inputs ++ ",") 1 ++
    outputs ++
    line 3 ("[" ++ Text.join ", " (binding.parameters.map (·.name)) ++ "],") 1 ++
    ending ++ payment ++ line 2 ")" 2

/-- The methods of a function, the local one first. -/
def methods (binding : FunctionBinding) : Text :=
  let remote := match binding.remoteMethod with
    | some name => method binding .remoteCall name
    | none => []
  method binding .localCall binding.localMethod ++ remote

/-- The class of a contract. -/
def contractClass (contract : ContractBinding) : Text :=
  line 0 [] 1 ++
    line 0 ("class " ++ contract.className ++ "(Contract[TLargeInteger]):") 1 ++
    line 1 (Text.quoted (contract.globalName ++ ":" ++ contract.contractName)) 2 ++
    line 1 "_event_descriptions = event_descriptions" 1 ++
    line 1 "_event_types = event_types" 2 ++
    contract.functions.flatMap methods

/-!
## The module
-/

/-- What follows the preamble, with one line break at the end. -/
def body (assembly : Assembly) : Text :=
  let text :=
    line 0 [] 1 ++
      assembly.records.flatMap recordDefinition ++ line 0 [] 2 ++
      eventDescriptions assembly.eventDescriptions ++
      assembly.eventTypes.flatMap eventClass ++ line 0 [] 1 ++
      eventUnion assembly.eventTypes ++ eventClasses assembly.eventClasses ++
      assembly.contracts.flatMap contractClass
  Text.trimEnd text (· = '\n') ++ "\n"

/-- Tells how much is being generated. -/
def generating (assembly : Assembly) : LogRecord :=
  ⟨.debug, "Generating bindings for " ++ Text.ofNat assembly.contracts.length ++
    " contracts and " ++ Text.ofNat assembly.eventDescriptions.length ++ " events"⟩

end Source

/-- A generated module, whose preamble is always the same. -/
structure GeneratedModule where
  body : Text
  deriving DecidableEq

namespace GeneratedModule

/-- The whole text of a module. -/
def text (module : GeneratedModule) : Text :=
  Source.preamble ++ module.body

/-- The module of an assembly, whose records must have names. -/
def ofAssembly (assembly : Assembly) : Except BindingFailure GeneratedModule :=
  if assembly.isNameable then .ok ⟨Source.body assembly⟩ else .error (.fault .unencodable)

/-- The module of the contracts in a compiler output. -/
def generate (suffix : Text) (output : CompilerOutput) :
    Except BindingFailure (Assembly.Logged GeneratedModule) := do
  let (assembly, logs) ← Assembly.ofOutput suffix output
  return (← ofAssembly assembly, logs ++ [Source.generating assembly])

end GeneratedModule

end ContractBindings
