import ContractBindings.Value

namespace ContractBindings

/-!
# Settings

Options are read from settings, whichever notation they were written in.
Numbers, truth values and moments are no options, so no more of them is kept
than that they are there.
-/

/-- A setting. -/
inductive Setting where
  | text (t : Text)
  | scalar
  | list (settings : List Setting)
  | table (entries : List (Text × Setting))

namespace Setting

mutual

/-- The setting that a value stands for. -/
def ofValue : Value → Setting
  | .text t => .text t
  | .list vs => .list (ofValues vs)
  | .tuple vs => .list (ofValues vs)
  | .dict entries => .table (ofEntries entries)
  | _ => .scalar

/-- The settings of a sequence. -/
def ofValues : List Value → List Setting
  | [] => []
  | v :: vs => ofValue v :: ofValues vs

/-- The settings of a mapping. -/
def ofEntries : List (Key × Value) → List (Text × Setting)
  | [] => []
  | (.text name, v) :: entries => (name, ofValue v) :: ofEntries entries
  | (_, _) :: entries => ofEntries entries

end

end Setting

end ContractBindings
