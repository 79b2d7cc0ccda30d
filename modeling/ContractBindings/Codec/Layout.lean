import ContractBindings.Abi.ArraySuffix
import ContractBindings.Codec.Description

namespace ContractBindings

/-!
# Layouts

Callers exchange tuples as mappings with a key for each component, arrays as
lists and addresses as bytes; the encoding knows sequences and, for addresses,
text.  A layout says where in a value this makes a difference.
-/

/-- The arrays, records and addresses in a described value. -/
inductive Layout where
  /-- A value that both sides write alike. -/
  | plain
  | address
  | list (element : Layout)
  | record (keys : Except Fault (List Value)) (members : List Layout)
  /-- The description cannot be used. -/
  | broken (fault : Fault)

namespace Layout

/-- A number of lists around a layout. -/
def listed (element : Layout) : (count : Nat) → Layout
  | 0 => element
  | count + 1 => .list (listed element count)

mutual

/-- The layout of described values. -/
def ofDescription : Description → Layout
  | .mapping entries components =>
      match Entries.get? entries (.text "type") with
      | none => .broken .missingKey
      | some (.text type) =>
          let (base, count) := Text.arrayBase type
          let element :=
            if base = "tuple" then ofComponents components
            else if base = "address" then .address
            else .plain
          listed element count
      | some _ => .broken .wrongKind
  | .bare _ => .broken .wrongKind
  | .malformed => .broken .wrongKind

/-- The layout of tuples with the given components. -/
def ofComponents : Components → Layout
  | .absent => .broken .missingKey
  | .malformed => .broken .wrongKind
  | .listed members => .record (Description.keys members) (ofDescriptions members)

/-- The layouts of several described values. -/
def ofDescriptions : List Description → List Layout
  | [] => []
  | description :: rest => ofDescription description :: ofDescriptions rest

end

/-- The members of anything that can be gone through: the characters of a text,
the numbers in a byte string and the keys of a mapping. -/
def members? : Value → Except Fault (List Value)
  | .list vs => .ok vs
  | .tuple vs => .ok vs
  | .text t => .ok (t.map fun c => .text [c])
  | .bytes b => .ok (b.map fun byte => .int byte.toNat)
  | .dict entries => .ok (entries.map fun entry => .ofKey entry.1)
  | _ => .error .wrongKind

/-- The values of a mapping under the given keys. -/
def pick (entries : Entries) (keys : List Value) : Except Fault (List Value) :=
  keys.mapM fun key =>
    match key.toKey? with
    | none => .error .wrongKind
    | some key =>
        match entries.get? key with
        | some v => .ok v
        | none => .error .missingKey

/-- The values of the components of a tuple. -/
def componentValues (keys : Except Fault (List Value)) : Value → Except Fault (List Value)
  | .dict entries => do pick entries (← keys)
  | v => members? v

mutual

/-- A value of a caller as the encoding knows it. -/
def prepare : Layout → Value → Except Fault Value
  | .plain, v => .ok v
  | .address, v => .ok v
  | .list element, v => do
      let vs ← members? v
      return .list (← vs.mapM (prepare element))
  | .record keys members, v => do
      let vs ← componentValues keys v
      return .tuple (← prepareMembers members vs)
  | .broken fault, _ => .error fault

/-- The values of components, as many as there are of both. -/
def prepareMembers : List Layout → List Value → Except Fault (List Value)
  | member :: members, v :: vs => do
      let v ← prepare member v
      let vs ← prepareMembers members vs
      return v :: vs
  | _, _ => .ok []

end

/-- The twenty bytes behind the digits of an address. -/
def addressOfDigits : Value → Except Fault Value
  | .text t =>
      match Octets.ofSpacedHex? (t.drop 2) with
      | some b => .ok (.bytes b)
      | none => .error .badValue
  | _ => .error .wrongKind

mutual

/-- A decoded value as callers know it. -/
def restore : Layout → Value → Except Fault Value
  | .plain, v => .ok v
  | .address, v => addressOfDigits v
  | .list element, v => do
      let vs ← members? v
      return .list (← vs.mapM (restore element))
  | .record keys members, v => do
      let keys ← keys
      let vs ← members? v
      return .dict (Entries.ofList (← restoreMembers keys members vs))
  | .broken fault, _ => .error fault

/-- The values of components with their keys. -/
def restoreMembers : List Value → List Layout → List Value →
    Except Fault (List (Key × Value))
  | key :: keys, member :: members, v :: vs => do
      let v ← restore member v
      match key.toKey? with
      | none => .error .wrongKind
      | some key => do
          let entries ← restoreMembers keys members vs
          return (key, v) :: entries
  | _, _, _ => .ok []

end

end Layout

end ContractBindings
