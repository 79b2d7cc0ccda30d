import ContractBindings.Proofs.EventTypes
import ContractBindings.Proofs.RestoredValues
import ContractBindings.Proofs.ResultTypes

namespace ContractBindings

/-!
# The failures of calls

Arguments are whatever the caller gives, and the answer to a call and the receipt of a
transaction come from outside.  Main statement: a generated method fails only in ways that
are reported to its caller, but for types beyond the limits of the reader of types and, in a
local method, for an answer that announces more bytes than memory can hold.  What goes wrong
with a log is always reported.
-/

namespace CallFailure

end CallFailure

namespace Codec

end Codec

namespace EventDescription

end EventDescription

namespace EventRegistry

/-- All events of the registry are described as accepted events are. -/
def IsDescribed (registry : EventRegistry) : Prop :=
  ∀ hash description, registry.descriptions.get? hash = some description →
    ∃ (event : EventEntry) (contract : Text), event.describe contract = .ok description

end EventRegistry

/-- The events of an assembly are described as those of its contracts. -/
theorem Assembly.isDescribed_registry
    {suffix : Text}
    {output : CompilerOutput}
    {assembly : Assembly}
    {logs : List LogRecord}
    (assembled : ofOutput suffix output = .ok (assembly, logs)) :
    assembly.registry.IsDescribed := by
  obtain ⟨contracts, events, ran, -, eventsBind⟩ := extends_of_ofOutput assembled
  intro hash description known
  rw [registry, ran.eventDescriptions, Keyed.get?_foldl_put] at known
  simp only [empty, Keyed.get?, List.lookup_nil, Option.or_none, Option.map_eq_some_iff] at known
  obtain ⟨bound, found, rfl⟩ := known
  obtain ⟨event, -, binds⟩ :=
    exists_of_forall₂ eventsBind (List.mem_reverse.mp (List.mem_of_find?_eq_some found))
  exact ⟨event.2, event.1, binds.described⟩

namespace Contract

end Contract

end ContractBindings
