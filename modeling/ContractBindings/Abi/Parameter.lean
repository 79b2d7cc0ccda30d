import ContractBindings.Value

namespace ContractBindings

/-!
# Parameters

The parameters of functions and events form trees: a tuple has components,
which are parameters themselves.  A parameter describes itself to the codec by
a mapping with its name, its type and, where it has them, its components.
-/

/-- A parameter, or a component of a tuple. -/
structure Parameter where
  name : Text
  type : Text
  components : Option (List Parameter)
  internalType : Option Text

namespace Parameter

mutual

/-- The mapping that describes a parameter to the codec. -/
def describe : Parameter → Value
  | ⟨name, type, none, _⟩ =>
      .dict [(.text "name", .text name), (.text "type", .text type)]
  | ⟨name, type, some components, _⟩ =>
      .dict [(.text "name", .text name), (.text "type", .text type),
        (.text "components", .list (describeAll components))]

/-- The descriptions of several parameters. -/
def describeAll : List Parameter → List Value
  | [] => []
  | parameter :: rest => parameter.describe :: describeAll rest

end

/-- The description of a parameter, followed by what else is known of it. -/
def describeWith (parameter : Parameter) (marks : Entries) : Value :=
  match parameter.describe with
  | .dict entries => .dict (entries ++ marks)
  | other => other

/-- Names for the parts of a sequence: those without a name are numbered from
`next` on, counting only them. -/
def fillNames (make : Nat → α) (isNamed : α → Bool) : (next : Nat) → (names : List α) → List α
  | _, [] => []
  | next, name :: names =>
      if isNamed name then name :: fillNames make isNamed next names
      else make next :: fillNames make isNamed (next + 1) names

/-- The stand-in for the name of the `n`th part without one. -/
def standIn (n : Nat) : Text :=
  "param" ++ Text.ofNat n

/-- The keys under which the values of parameters are stored. -/
def keys (parameters : List Parameter) : List Text :=
  fillNames standIn (! ·.isEmpty) 1 (parameters.map (·.name))

end Parameter

/-- A parameter of an event, which may be indexed. -/
structure EventParameter extends Parameter where
  indexed : Bool

namespace EventParameter

/-- What the description of an event parameter says besides its type. -/
def marks (parameter : EventParameter) : Entries :=
  [(.text "indexed", .bool parameter.indexed)]

/-- The mapping that describes an event parameter. -/
def describe (parameter : EventParameter) : Value :=
  parameter.toParameter.describeWith parameter.marks

end EventParameter

end ContractBindings
