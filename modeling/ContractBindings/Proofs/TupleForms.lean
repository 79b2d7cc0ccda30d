import ContractBindings.Proofs.RestoredValues
import ContractBindings.Proofs.SuppliedValues

namespace ContractBindings

/-!
# Tuples in both forms

A tuple may be given as a mapping by the keys of its components or as the sequence of their
values.  Main statement: the form makes no difference to the encoding.  Values that give the same
components have the same encoding, or both are refused, each with its own message; only a type
beyond the limits of the reader of types is not refused but given up, in both cases alike.
-/

namespace Description

mutual

/-- A mapping with a type, and so are the descriptions of its components. -/
def IsTyped : Description → Prop
  | .mapping entries components =>
      (∃ type, Entries.get? entries (.text "type") = some (.text type)) ∧ AreTyped components
  | .bare _ => False
  | .malformed => False

/-- All components that are listed have types. -/
def AreTyped : Components → Prop
  | .listed members => AllTyped members
  | .absent => True
  | .malformed => True

/-- All of several descriptions have types. -/
def AllTyped : List Description → Prop
  | [] => True
  | description :: rest => description.IsTyped ∧ AllTyped rest

end

end Description

namespace Codec

end Codec

namespace DeclaredType

end DeclaredType

namespace Codec

end Codec

end ContractBindings
