import ContractBindings.Abi.Entry
import ContractBindings.Checking

namespace ContractBindings

/-!
# Reading interfaces

Interfaces come as documents.  Unknown keys are ignored and missing ones have
defaults, except for the type of a parameter.  A function says whether it reads
only and whether it takes a payment by two flags; compilers that state a
mutability instead leave the flags to be derived from it.
-/

namespace Parameter

/-- Reads the name of a parameter. -/
def readName (entries : Entries) : Checked Text :=
  entries.readField "name" [] Value.readText

/-- Reads the type of a parameter. -/
def readType (entries : Entries) : Checked Text :=
  entries.readRequired "type" Value.readText

/-- Reads the name that the source language has for the type. -/
def readInternalType (entries : Entries) : Checked (Option Text) :=
  entries.readAliased "internalType" "internal_type" none Value.readOptionalText

mutual

/-- Reads a parameter with room for so many levels of parameters, its own one
included. -/
def readWithin (room : Nat) : Value → Checked Parameter
  | .dict entries =>
      if room = 0 then .issue .tooDeep
      else
        ((((readName entries).map mk).apply (readType entries)).apply
          (readComponentsField (room - 1) entries)).apply (readInternalType entries)
  | _ => .issue (if room = 0 then .tooDeep else .notModel)

/-- Reads the entry that lists the components, if there is one. -/
def readComponentsField (room : Nat) : List (Key × Value) → Checked (Option (List Parameter))
  | [] => .accepted none
  | (key, value) :: entries =>
      if key.same (.text "components") then
        (readComponents room value).within (.key "components")
      else readComponentsField room entries

/-- Reads a list of components or null. -/
def readComponents (room : Nat) : Value → Checked (Option (List Parameter))
  | .null => .accepted none
  | .list values => (readFrom room 0 values).map some
  | _ => .issue .notTuple

/-- Reads parameters that stand at the given index and after it. -/
def readFrom (room : Nat) : (place : Nat) → List Value → Checked (List Parameter)
  | _, [] => .accepted []
  | place, value :: values =>
      (((readWithin room value).within (.index place)).map List.cons).apply
        (readFrom room (place + 1) values)

end

/-- The number of levels on which parameters can stand below each other. -/
def greatestDepth : Nat := 254

/-- Reads a parameter. -/
def read (v : Value) : Checked Parameter :=
  readWithin greatestDepth v

/-- Reads a sequence of parameters. -/
def readAll : Value → Checked (List Parameter)
  | .list values => readFrom greatestDepth 0 values
  | _ => .issue .notTuple

end Parameter

namespace EventParameter

/-- Reads a parameter of an event.  The levels of its components are counted from
below it. -/
def read : Value → Checked EventParameter
  | .dict entries =>
      ((Parameter.readWithin (Parameter.greatestDepth + 1) (.dict entries)).map
        EventParameter.mk).apply
        (Entries.readField entries "indexed" false Value.readBool)
  | _ => .issue .notModel

/-- Reads a sequence of event parameters. -/
def readAll : Value → Checked (List EventParameter)
  | .list values => Checked.indexed (values.map read)
  | _ => .issue .notTuple

end EventParameter

/-- Reads a tag that admits one value only. -/
def readTag (tag : Text) : Value → Checked Unit
  | .text t =>
      if ! Text.isScalar t then .issue .notUnicode
      else if t = tag then .accepted ()
      else .issue .wrongTag
  | _ => .issue .wrongTag

namespace FunctionEntry

/-- Adds the flags that a stated mutability stands for, where they are missing. -/
def deriveFlags (entries : Entries) : Checked Entries :=
  match entries.get? (.text "stateMutability") with
  | none | some .null => .accepted entries
  | some (.list _) | some (.dict _) => .stopped .wrongKind
  | some mutability =>
      let reads := match mutability with
        | .text t => t = "view" || t = "pure"
        | _ => false
      let takesPayment := match mutability with
        | .text t => decide (t = "payable")
        | _ => false
      .accepted <| setDefault "payable" takesPayment (setDefault "constant" reads entries)
where
  /-- Stores a truth value under a key that has no value yet. -/
  setDefault (name : Text) (flag : Bool) (entries : Entries) : Entries :=
    match entries.get? name with
    | some _ => entries
    | none => entries.set name (.bool flag)

/-- Reads the fields of a function. -/
def readFields (entries : Entries) : Checked FunctionEntry :=
  let tag := entries.readField "type" () (readTag "function")
  let name := entries.readField "name" ([] : Text) Value.readText
  let inputs := entries.readField "inputs" [] Parameter.readAll
  let outputs := entries.readField "outputs" [] Parameter.readAll
  let constant := entries.readField "constant" false Value.readBool
  let payable := entries.readField "payable" false Value.readBool
  let mutability :=
    entries.readAliased "stateMutability" "state_mutability" none Value.readOptionalText
  (((((((tag.map fun _ => mk).apply name).apply inputs).apply outputs).apply constant).apply
    payable).apply mutability)

/-- Reads a function. -/
def read : Value → Checked FunctionEntry
  | .dict entries => (deriveFlags entries).bind readFields
  | _ => .issue .notModel

end FunctionEntry

namespace EventEntry

/-- Reads an event. -/
def read : Value → Checked EventEntry
  | .dict entries =>
      let tag := Entries.readField entries "type" () (readTag "event")
      let name := Entries.readField entries "name" ([] : Text) Value.readText
      let inputs := Entries.readField entries "inputs" [] EventParameter.readAll
      let anonymous := Entries.readField entries "anonymous" false Value.readBool
      ((((tag.map fun _ => mk).apply name).apply inputs).apply anonymous)
  | _ => .issue .notModel

end EventEntry

namespace Entry

/-- Reads an entry.  One without a type is a function. -/
def read : Value → Checked Entry
  | .dict entries =>
      match (Entries.get? entries (.text "type")).getD (.text "function") with
      | .text tag =>
          if tag = "function" then (FunctionEntry.read (.dict entries)).map .function
          else if tag = "event" then (EventEntry.read (.dict entries)).map .event
          else .accepted (.other tag)
      | _ => (Checked.issue .notText).within (.key "type")
  | _ => .stopped .noMember

/-- Reads a list of entries up to the first that has issues.  Texts and mappings
are sequences of texts, none of which is an entry. -/
def readList : Value → Checked Interface
  | .list values => Checked.firstBad (values.map read)
  | .text [] => .accepted []
  | .dict [] => .accepted []
  | .text _ => .stopped .noMember
  | .dict _ => .stopped .noMember
  | _ => .stopped .wrongKind

/-- Reads the interface of a contract, which null and nothing leave empty. -/
def readInterface : Value → Checked Interface
  | .dict entries =>
      Entries.readField entries "abi" [] fun
        | .null => .accepted []
        | value => readList value
  | _ => .issue .notModel

end Entry

namespace CompilerOutput

/-- Reads each value of a mapping below its key, and keeps the keys. -/
def readMapping (read : Value → Checked α) : Value → Checked (List (Text × α))
  | .dict entries =>
      Checked.all <| entries.map fun (key, value) =>
        let name := match key with
          | .text t => t
          | other => Value.keyLiteral other
        ((read value).map fun result => (name, result)).within (.key name)
  | _ => .issue .notMapping

/-- Reads a mapping that has an entry for the contracts. -/
def readWhole : Value → Checked CompilerOutput
  | .dict entries =>
      (Entries.readField entries "contracts" []
        (readMapping (readMapping Entry.readInterface))).map mk
  | _ => .issue .notModel

/-- Whether a document mentions the contracts: as a key, as an element or as a
part of a text. -/
def mentionsContracts : Value → Option Bool
  | .dict entries => some (Entries.get? entries (.text "contracts")).isSome
  | .list values => some <| values.any fun
      | .text t => t = "contracts"
      | _ => false
  | .text t => some (Text.contains t "contracts")
  | _ => none

/-- Reads the output of a compiler, or the mapping of the contracts alone. -/
def read (document : Value) : Checked CompilerOutput :=
  match mentionsContracts document with
  | none => .stopped .wrongKind
  | some true => readWhole document
  | some false => readWhole (.dict [(.text "contracts", document)])

end CompilerOutput

end ContractBindings
