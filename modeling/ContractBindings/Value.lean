import ContractBindings.Number.Binary64
import ContractBindings.Number.Decimal
import ContractBindings.Text.Quoted

namespace ContractBindings

/-!
# Values

Arguments and results of contract calls, and documents that have not been
checked yet, are values: scalars, sequences and mappings with ordered keys.
A mapping has at most one entry for a key; storing under a key again keeps the
place of the first entry.  So does a keyed list, whose keys are all texts.
-/

/-- Values under texts, in the order of first appearance. -/
abbrev Keyed (α : Type) := List (Text × α)

namespace Keyed

/-- The value under a key. -/
def get? (key : Text) (entries : Keyed α) : Option α :=
  entries.lookup key

/-- Stores a value under a key. -/
def put (key : Text) (value : α) : Keyed α → Keyed α
  | [] => [(key, value)]
  | (other, old) :: rest =>
      if other = key then (other, value) :: rest
      else (other, old) :: put key value rest

end Keyed

/-- A key of a mapping.  Numbers and truth values of equal value are one key. -/
inductive Key where
  | text (t : Text)
  | bool (b : Bool)
  | int (i : Int)
  | float (x : Binary64)
  deriving DecidableEq, Repr

namespace Key

instance : Coe Text Key := ⟨Key.text⟩

/-- The integer that a numeric key equals. -/
def toInt? : Key → Option Int
  | .text _ => none
  | .bool b => some (if b then 1 else 0)
  | .int i => some i
  | .float x => x.toInt?

/-- Two spellings of one key. -/
def same (a b : Key) : Bool :=
  if a = b then true
  else
    match a.toInt?, b.toInt? with
    | some i, some j => i = j
    | _, _ => false

end Key

/-- A dynamic value. -/
inductive Value where
  | null
  | bool (b : Bool)
  | int (i : Int)
  | float (x : Binary64)
  | decimal (d : Decimal)
  | text (t : Text)
  | bytes (b : Octets)
  | list (vs : List Value)
  | tuple (vs : List Value)
  | dict (entries : List (Key × Value))

/-- A mapping as the list of its entries, in order. -/
abbrev Entries := List (Key × Value)

namespace Entries

/-- The value stored under a key. -/
def get? : (entries : Entries) → (key : Key) → Option Value
  | [], _ => none
  | (k, v) :: entries, key => if k.same key then some v else get? entries key

/-- Stores a value, in the place of an entry with the same key if there is one. -/
def set : (entries : Entries) → (key : Key) → (value : Value) → Entries
  | [], key, value => [(key, value)]
  | (k, v) :: entries, key, value =>
      if k.same key then (k, value) :: entries else (k, v) :: set entries key value

/-- The mapping that results from storing the entries one after another. -/
def ofList (entries : List (Key × Value)) : Entries :=
  entries.foldl (fun result entry => result.set entry.1 entry.2) []

end Entries

namespace Value

instance : Coe Text Value := ⟨Value.text⟩

/-- A value that counts as true: not null, not zero and not empty. -/
def isTrue : Value → Bool
  | .null => false
  | .bool b => b
  | .int i => i ≠ 0
  | .float x => ! x.isZero
  | .decimal (.finite _ coefficient _) => coefficient ≠ 0
  | .decimal _ => true
  | .text t => ! t.isEmpty
  | .bytes b => ! b.isEmpty
  | .list vs => ! vs.isEmpty
  | .tuple vs => ! vs.isEmpty
  | .dict entries => ! entries.isEmpty

/-- The key that a scalar can serve as. -/
def toKey? : Value → Option Key
  | .text t => some (.text t)
  | .bool b => some (.bool b)
  | .int i => some (.int i)
  | .float x => some (.float x)
  | _ => none

/-- The value of a key. -/
def ofKey : Key → Value
  | .text t => .text t
  | .bool b => .bool b
  | .int i => .int i
  | .float x => .float x

/-- The entry of a mapping under a text. -/
def field? (v : Value) (name : Text) : Option Value :=
  match v with
  | .dict entries => Entries.get? entries (.text name)
  | _ => none

/-- The literal of a truth value. -/
def boolLiteral (b : Bool) : Text :=
  if b then "True" else "False"

/-- The literal of a key. -/
def keyLiteral : Key → Text
  | .text t => t.quoted
  | .bool b => boolLiteral b
  | .int i => Text.ofInt i
  | .float x => x.toText

mutual

/-- The literal of a value in the notation of the generated module. -/
def literal : Value → Text
  | .null => "None"
  | .bool b => boolLiteral b
  | .int i => Text.ofInt i
  | .float x => x.toText
  | .decimal d => "Decimal('" ++ d.toText ++ "')"
  | .text t => t.quoted
  | .bytes b => Octets.quoted b
  | .list vs => "[" ++ Text.join ", " (literals vs) ++ "]"
  | .tuple [v] => "(" ++ v.literal ++ ",)"
  | .tuple vs => "(" ++ Text.join ", " (literals vs) ++ ")"
  | .dict entries => "\x7b" ++ Text.join ", " (entryLiterals entries) ++ "\x7d"

/-- The literals of the members of a sequence. -/
def literals : List Value → List Text
  | [] => []
  | v :: vs => v.literal :: literals vs

/-- The entries of a mapping, each as key, colon and value. -/
def entryLiterals : List (Key × Value) → List Text
  | [] => []
  | (k, v) :: entries => (keyLiteral k ++ ": " ++ v.literal) :: entryLiterals entries

end

end Value

end ContractBindings
