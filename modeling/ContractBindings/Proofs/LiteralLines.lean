import ContractBindings.Proofs.DeclaredParameters
import ContractBindings.Proofs.ModuleLines

namespace ContractBindings

/-!
# The lines with literals

What a module says of parameters, events and records is written as literals.  Each of them
stands on a line of its own between fixed words, and is read back as what it was written
for if its brackets are not too many.  There is one statement for each part of a module: the
definition of a record, an entry of the registry of events, the class of an event, that of a
contract, and the two methods of a function.
-/

namespace Parameter

/-- The entries that describe a parameter. -/
def describedFields : Parameter → List (Text × Value)
  | ⟨name, type, none, _⟩ => [("name", .text name), ("type", .text type)]
  | ⟨name, type, some components, _⟩ =>
      [("name", .text name), ("type", .text type), ("components", .list (describeAll components))]

theorem describe_eq
    (parameter : Parameter) :
    parameter.describe = .dict (Entries.ofFields parameter.describedFields) := by
  obtain ⟨name, type, _ | components, internalType⟩ := parameter <;> rw [describe] <;> rfl

theorem describeAll_eq_map
    (parameters : List Parameter) :
    describeAll parameters = parameters.map (·.describe) := by
  induction parameters with
  | nil =>
      rfl
  | cons parameter parameters inductionHypothesis =>
      rw [describeAll, inductionHypothesis, List.map_cons]

/-- The values that describe a parameter stand under different texts. -/
theorem nodup_describedFields
    (parameter : Parameter)
    (indexed : Value) :
    ((parameter.describedFields ++ [(Text.ofString "indexed", indexed)]).map (·.1)).Nodup := by
  have ofPlain : (["name", "type", "indexed"] : List Text).Nodup := by
    decide
  have ofTuple : (["name", "type", "components", "indexed"] : List Text).Nodup := by
    decide
  obtain ⟨name, type, _ | components, internalType⟩ := parameter
  · exact ofPlain
  · exact ofTuple

/-- A parameter whose fields are plain is described by a plain value. -/
theorem isPlain_describe_of_fields
    {parameter : Parameter}
    (plain : ∀ field ∈ parameter.describedFields, field.2.IsPlain) :
    parameter.describe.IsPlain := by
  have distinct : (parameter.describedFields.map (·.1)).Nodup := by
    refine List.Nodup.sublist ?_ (parameter.nodup_describedFields .null)
    rw [List.map_append]
    exact List.sublist_append_left _ _
  rw [describe_eq]
  exact .dict distinct plain

theorem isPlain_describedFields
    (parameter : Parameter) :
    ∀ field ∈ parameter.describedFields, field.2.IsPlain := by
  induction parameter using inductionOnComponents with
  | plain name type internalType =>
      exact List.forall_mem_cons.mpr ⟨.text name, List.forall_mem_singleton.mpr (.text type)⟩
  | tuple name type components internalType inductionHypothesis =>
      refine List.forall_mem_cons.mpr ⟨.text name, List.forall_mem_cons.mpr ⟨.text type,
        List.forall_mem_singleton.mpr (.list ?_)⟩⟩
      rw [describeAll_eq_map]
      exact List.forall_mem_map.mpr fun component member =>
        isPlain_describe_of_fields (inductionHypothesis component member)

/-- The list of the descriptions of parameters. -/
def described (parameters : List Parameter) : Value :=
  .list (parameters.map (·.describe))

theorem isPlain_described
    (parameters : List Parameter) :
    (described parameters).IsPlain :=
  .list (List.forall_mem_map.mpr fun parameter _ =>
    isPlain_describe_of_fields parameter.isPlain_describedFields)

end Parameter

namespace EventParameter

theorem isPlain_describe
    (parameter : EventParameter) :
    parameter.describe.IsPlain := by
  have isMapping :
      parameter.describe =
        .dict (Entries.ofFields
          (parameter.describedFields ++ [(Text.ofString "indexed", .bool parameter.indexed)])) := by
    rw [describe, Parameter.describeWith, Parameter.describe_eq, Entries.ofFields, Entries.ofFields,
      List.map_append]
    rfl
  rw [isMapping]
  refine .dict (parameter.nodup_describedFields _) fun field member => ?_
  rcases List.mem_append.mp member with isField | isMark
  · exact parameter.isPlain_describedFields field isField
  · rw [List.mem_singleton.mp isMark]
    exact .bool _

end EventParameter

namespace RecordFields

/-- The fields of a record as entries: the texts of their types under their keys. -/
def entries (record : RecordFields) : Entries :=
  Entries.ofFields (record.map fun (key, type) => (key, .text type.render))

end RecordFields

namespace Source

/-!
## Literals in their lines
-/

/-- A line writes a value between fixed words: the value is read back from it, in brackets
of the lines around it, if its own brackets are not too many, and else nothing is. -/
def Writes (level : Nat) (start stop : Text) (around : Nat) (t : Text) (v : Value) : Prop :=
  readLine? level start stop around t =
    if around + v.brackets ≤ greatestBrackets then some v else none

theorem writes_literal
    {v : Value}
    (plain : v.IsPlain)
    {around : Nat}
    (isOpen : around ≤ greatestBrackets)
    (level : Nat)
    (start stop : Text) :
    Writes level start stop around (margin level ++ (start ++ v.literal ++ stop)) v :=
  (readLine?_append level start stop around v.literal).trans (Literal.read?_literal plain isOpen)

/-- The fields of a record are written as one literal. -/
theorem recordDefinition_eq
    (record : RecordFields) :
    recordDefinition record =
      line 0 ((record.name ++ " = TypedDict(" ++ inQuotes record.name ++ ", ") ++
        (Value.dict record.entries).literal ++ ")") 1 := by
  rw [recordDefinition, RecordFields.entries, Value.literal, Literal.entryLiterals_eq_map,
    List.map_map]
  simp only [List.append_assoc]
  rfl

/-- What a method calls. -/
def callee : MethodKind → Text
  | .localCall => "_local_call"
  | .remoteCall => "_remote_call"

/-- What a method has in front of its call. -/
def beforeCall (binding : FunctionBinding) (kind : MethodKind) (name : Text) : Text :=
  let returnType : Text := match kind with
    | .localCall => binding.returnType.render
    | .remoteCall => "List[Event[TLargeInteger]]"
  line 1 ("async def " ++ name ++ "(self" ++ parameterList binding ++ ") -> " ++ returnType ++
      ":") 1 ++
    documentation binding kind

/-- The line with the descriptions of what a method returns, which only a local method has. -/
def outputsLine (binding : FunctionBinding) : MethodKind → Text
  | .localCall => line 3 (descriptionList binding.outputs ++ ",") 1
  | .remoteCall => []

def argumentsLine (binding : FunctionBinding) : Text :=
  line 3 ("[" ++ Text.join ", " (binding.parameters.map (·.name)) ++ "],") 1

/-- What a method has behind the arguments of its call. -/
def callEnd (binding : FunctionBinding) (kind : MethodKind) : Text :=
  let shape : Text := match binding.returnShape with
    | .void => "VOID"
    | .single => "SINGLE"
    | .record => "RECORD"
  let ending := match kind with
    | .localCall => line 3 ("ReturnShape." ++ shape ++ ",") 1
    | .remoteCall => line 3 (binding.abiName.quoted ++ ",") 1
  let payment := if binding.payable then line 3 "attached_value," 1 else []
  ending ++ (payment ++ line 2 ")" 2)

theorem method_eq
    (binding : FunctionBinding)
    (kind : MethodKind)
    (name : Text) :
    method binding kind name =
      beforeCall binding kind name ++
        (line 2 ("return await self." ++ callee kind ++ "(") 1 ++
          (line 3 ("bytes.fromhex(" ++ inQuotes (Octets.toHex binding.selector) ++ "),") 1 ++
            (line 3 (descriptionList binding.inputs ++ ",") 1 ++
              (outputsLine binding kind ++ (argumentsLine binding ++ callEnd binding kind))))) := by
  simp only [method, beforeCall, argumentsLine, callEnd, List.append_assoc]
  cases kind <;> rfl

theorem writes_described
    (parameters : List Parameter) :
    Writes 3 [] "," 1 (margin 3 ++ (descriptionList parameters ++ ","))
      (Parameter.described parameters) :=
  writes_literal (Parameter.isPlain_described parameters) (by decide) 3 [] ","

end Source

end ContractBindings
