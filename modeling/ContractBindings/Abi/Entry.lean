import ContractBindings.Abi.Parameter

namespace ContractBindings

/-!
# Interface entries

The interface of a contract is a list of entries.  Functions and events are
bound; of every other kind of entry only the name of its kind is kept.
-/

/-- A function of a contract. -/
structure FunctionEntry where
  name : Text
  inputs : List Parameter
  outputs : List Parameter
  constant : Bool
  payable : Bool
  stateMutability : Option Text

/-- An event of a contract. -/
structure EventEntry where
  name : Text
  inputs : List EventParameter
  anonymous : Bool

/-- An entry of the interface of a contract. -/
inductive Entry where
  | function (entry : FunctionEntry)
  | event (entry : EventEntry)
  | other (type : Text)

namespace Entry

/-- The functions among the entries, in their order. -/
def functions (entries : List Entry) : List FunctionEntry :=
  entries.filterMap fun
    | .function entry => some entry
    | _ => none

/-- The events among the entries, in their order. -/
def events (entries : List Entry) : List EventEntry :=
  entries.filterMap fun
    | .event entry => some entry
    | _ => none

end Entry

/-- The interface of a contract. -/
abbrev Interface := List Entry

/-- What a compiler says about the contracts of its source units: for each unit
the interfaces of its contracts by name, all in the order of the document. -/
structure CompilerOutput where
  sources : List (Text × List (Text × Interface))

end ContractBindings
