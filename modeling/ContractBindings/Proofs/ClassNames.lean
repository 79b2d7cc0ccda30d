import Mathlib.Data.List.Nodup
import ContractBindings.Proofs.AssemblySteps

namespace ContractBindings

/-!
# The names of classes

Contracts and events share one list of the class names that are taken.  Each new name
gets underscores until it clashes with none of the list and none that is reserved, so
the list is without repetitions at any time, and it holds the class names of all
contracts and events so far and nothing else.
-/

namespace Names

/-- A name that was found by appending underscores does not clash. -/
theorem clashes_appendUnderscores
    {clashes : Text → Bool}
    {bound : Nat}
    {name free : Text}
    (found : appendUnderscores clashes bound name = some free) :
    clashes free = false := by
  induction bound generalizing name with
  | zero =>
      cases found
  | succ bound inductionHypothesis =>
      rw [appendUnderscores] at found
      split at found
      case isTrue clash =>
        exact inductionHypothesis found
      case isFalse noClash =>
        cases found
        exact eq_false_of_ne_true noClash

/-- A free name is not taken, and it is free where nothing is taken. -/
theorem clashesAsClass_eq_false_iff
    {taken : List Text}
    {name : Text} :
    clashesAsClass taken name = false ↔ name ∉ taken ∧ clashesAsClass [] name = false := by
  simp only [clashesAsClass, Bool.or_eq_false_iff, List.contains_eq_mem, decide_eq_false_iff_not,
    List.not_mem_nil, not_false_eq_true, and_true]
  tauto

/-- A name that is free where nothing is taken is none of the module, no reserved word and
no name of a record. -/
theorem clashesAsClass_nil_iff
    {name : Text} :
    clashesAsClass [] name = false ↔
      name ∉ moduleNames ∧ name ∉ keywords ∧ isRecordName name = false := by
  simp only [clashesAsClass, Bool.or_eq_false_iff, List.contains_eq_mem, decide_eq_false_iff_not,
    List.not_mem_nil, not_false_eq_true, and_true, and_assoc]

end Names

namespace Assembly

/-- The names of the classes of contracts and of events. -/
def classes (assembly : Assembly) : List Text :=
  assembly.contracts.map (·.className) ++ assembly.eventTypes.map (·.className)

/-- A name that is given to a class clashes with no other one. -/
theorem clashesAsClass_of_className
    {taken : List Text}
    {name given : Text}
    (named : className taken name = .ok given) :
    Names.clashesAsClass taken given = false := by
  rw [className] at named
  split at named
  case h_1 found =>
    cases named
    exact Names.clashes_appendUnderscores found
  case h_2 =>
    cases named

/-- The taken names are those of the classes, each once, and each is free otherwise. -/
structure NamesApart (assembly : Assembly) : Prop where
  areClasses : assembly.classNames.Perm assembly.classes
  nodup : assembly.classNames.Nodup
  areFree : ∀ name ∈ assembly.classNames, Names.clashesAsClass [] name = false

theorem NamesApart.empty :
    empty.NamesApart :=
  ⟨.nil, .nil, by simp [Assembly.empty]⟩

/-- One more class under a name that was given to it keeps the names apart. -/
theorem NamesApart.append
    {assembly next : Assembly}
    {name given : Text}
    (apart : assembly.NamesApart)
    (named : className assembly.classNames name = .ok given)
    (taken : next.classNames = assembly.classNames ++ [given])
    (areClasses : next.classes.Perm (given :: assembly.classes)) :
    next.NamesApart := by
  obtain ⟨isNew, isFree⟩ :=
    Names.clashesAsClass_eq_false_iff.mp (clashesAsClass_of_className named)
  -- Contracts and events are listed apart, so the names agree up to their order only.
  have inFront : next.classNames.Perm (given :: assembly.classNames) := by
    rw [taken]
    exact List.perm_append_singleton given assembly.classNames
  refine ⟨?_, ?_, ?_⟩
  · exact inFront.trans ((apart.areClasses.cons given).trans areClasses.symm)
  · exact inFront.nodup_iff.mpr (List.nodup_cons.mpr ⟨isNew, apart.nodup⟩)
  · intro other member
    rcases List.mem_cons.mp (inFront.mem_iff.mp member) with rfl | known
    · exact isFree
    · exact apart.areFree other known

theorem namesApart_of_addEvent
    {contract contractClass : Text}
    {assembly next : Assembly}
    {event : EventEntry}
    {logs : List LogRecord}
    (added : addEvent contract contractClass assembly event = .ok (next, logs))
    (apart : assembly.NamesApart) :
    next.NamesApart := by
  rcases addEvent_cases added with
    ⟨-, rfl⟩ | ⟨-, description, eventClass, type, -, named, typed, rfl⟩
  · exact apart
  · refine apart.append named rfl ?_
    have hasClass : type.className = eventClass :=
      EventEntry.className_of_nominalType typed
    simp only [classes, List.map_append, List.map_singleton, hasClass, ← List.append_assoc]
    exact List.perm_append_singleton eventClass _

theorem namesApart_withContract
    {assembly : Assembly}
    {name : Text}
    {contract : ContractBinding}
    (named : className assembly.classNames name = .ok contract.className)
    (apart : assembly.NamesApart) :
    (assembly.withContract contract).NamesApart := by
  refine apart.append named rfl ?_
  simp only [classes, withContract, List.map_append, List.map_singleton, List.append_assoc,
    List.singleton_append]
  exact List.perm_middle

/-- The class names of an assembly are pairwise distinct, and free where nothing is taken. -/
theorem classes_of_ofOutput
    {suffix : Text}
    {output : CompilerOutput}
    {assembly : Assembly}
    {logs : List LogRecord}
    (assembled : ofOutput suffix output = .ok (assembly, logs)) :
    assembly.classes.Nodup ∧
      ∀ name ∈ assembly.classes, Names.clashesAsClass [] name = false := by
  have apart : assembly.NamesApart :=
    holds_of_addContracts namesApart_of_addEvent namesApart_withContract assembled .empty
  exact ⟨apart.areClasses.nodup_iff.mp apart.nodup,
    fun name member => apart.areFree name (apart.areClasses.mem_iff.mpr member)⟩

end Assembly

end ContractBindings
