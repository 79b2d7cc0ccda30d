import ContractBindings.Abi.Parameter
import ContractBindings.Binding.Event
import ContractBindings.Fault
import ContractBindings.Value

namespace ContractBindings

/-!
# Descriptions

The codec is told about parameters by descriptions, which are mappings with a
name, a type and, for tuples, the descriptions of the components.  Nothing
checks a description before it is used, so each use of one can fail.
-/

mutual

/-- What stands where a parameter is to be described. -/
inductive Description where
  | mapping (entries : Entries) (components : Components)
  /-- A type without a name. -/
  | bare (type : Text)
  | malformed

/-- What a description says about components. -/
inductive Components where
  | absent
  | listed (members : List Description)
  | malformed

end

namespace Description

/-- The descriptions in a sequence of texts. -/
def bareAll (texts : List Text) : List Description :=
  texts.map .bare

/-- The text of a key, if it is one. -/
def ofKey : Key → Description
  | .text t => .bare t
  | _ => .malformed

mutual

/-- What a value describes. -/
def ofValue : Value → Description
  | .dict entries => .mapping entries (componentsIn entries)
  | .text t => .bare t
  | _ => .malformed

/-- The components under their key, if it has an entry. -/
def componentsIn : List (Key × Value) → Components
  | [] => .absent
  | (key, value) :: entries =>
      if key.same (.text "components") then componentsOf value else componentsIn entries

/-- The components in a value.  A text is a sequence of its characters, and a
mapping one of its keys. -/
def componentsOf : Value → Components
  | .list vs => .listed (ofValues vs)
  | .tuple vs => .listed (ofValues vs)
  | .text t => .listed (bareAll (t.map ([·])))
  | .dict entries => .listed (entries.map fun entry => ofKey entry.1)
  | .bytes b => .listed (b.map fun _ => .malformed)
  | _ => .malformed

/-- What the members of a sequence describe. -/
def ofValues : List Value → List Description
  | [] => []
  | v :: vs => ofValue v :: ofValues vs

end

/-- An entry that a description must have. -/
def required (description : Description) (name : Text) : Except Fault Value :=
  match description with
  | .mapping entries _ =>
      match entries.get? (.text name) with
      | some v => .ok v
      | none => .error .missingKey
  | _ => .error .wrongKind

/-- The type in a description. -/
def type (description : Description) : Except Fault Value :=
  description.required "type"

/-- The name in a description. -/
def name (description : Description) : Except Fault Value :=
  description.required "name"

/-- The keys under which the values of described parameters are stored. -/
def keys (descriptions : List Description) : Except Fault (List Value) := do
  let names ← descriptions.mapM name
  return Parameter.fillNames (fun n => .text (Parameter.standIn n)) Value.isTrue 1 names

/-- Whether a type leaves only a hash when it is indexed.  Sequences and
mappings cannot even be compared with a type. -/
def isHashedType : Value → Except Fault Bool
  | .text type => .ok (isHashedWhenIndexed type)
  | .list _ => .error .wrongKind
  | .dict _ => .error .wrongKind
  | _ => .error .noMember

/-- Whether a description says that its parameter is indexed. -/
def isIndexed : Description → Except Fault Bool
  | .mapping entries _ =>
      .ok (((entries.get? (.text "indexed")).map Value.isTrue).getD false)
  | _ => .error .noMember

/-- The description of the hash that is left of an indexed parameter. -/
def hashed (name : Value) : Description :=
  .mapping [(.text "name", name), (.text "type", .text "bytes32"),
    (.text "indexed", .bool true)] .absent

/-- The description by which an event parameter is decoded. -/
def decoding (description : Description) : Except Fault Description := do
  if ← description.isIndexed then
    if ← isHashedType (← description.type) then
      return hashed (← description.name)
  return description

/-- The mapping behind a description. -/
def toValue : Description → Value
  | .mapping entries _ => .dict entries
  | .bare type => .text type
  | .malformed => .null

mutual

/-- The type under which a described value is encoded.  A tuple is written as
the parenthesized list of the types of its components. -/
def encodedType : Description → Except Fault Text
  | .bare type => .ok type
  | .malformed => .error .noMember
  | .mapping entries components =>
      match Entries.get? entries (.text "type") with
      | some (.text type) =>
          match Text.dropStart? type "tuple" with
          | none => .ok type
          | some suffix => do
              let types ← componentTypes components
              return "(" ++ Text.join "," types ++ ")" ++ suffix
      | _ => .error .wrongKind

/-- The types of the components of a tuple. -/
def componentTypes : Components → Except Fault (List Text)
  | .absent => .error .missingKey
  | .malformed => .error .wrongKind
  | .listed members => encodedTypes members

/-- The types of several described values. -/
def encodedTypes : List Description → Except Fault (List Text)
  | [] => .ok []
  | description :: rest => do
      let type ← encodedType description
      let types ← encodedTypes rest
      return type :: types

end

/-- The type of a value that stands by itself, which only a mapping describes. -/
def ownType : Description → Except Fault Text
  | .mapping entries components => encodedType (.mapping entries components)
  | _ => .error .wrongKind

end Description

namespace Parameter

/-- The descriptions that the codec is told of parameters. -/
def descriptions (parameters : List Parameter) : List Description :=
  parameters.map fun parameter => Description.ofValue parameter.describe

end Parameter

end ContractBindings
