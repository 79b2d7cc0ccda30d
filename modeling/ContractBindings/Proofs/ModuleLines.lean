import Mathlib.Data.List.TakeWhile
import ContractBindings.Proofs.RegistryReading

namespace ContractBindings

/-!
# The lines of a module

A module is written statement by statement, and a statement line by line.  Main statement:
lines that stand in a statement one after another stand so in the module, though the line
breaks at its end are dropped.
-/

namespace Text

theorem exists_eq_trimEnd_append
    (t : Text)
    (c : CodePoint) :
    ∃ n, t = trimEnd t (· = c) ++ List.replicate n c := by
  have areDropped : ∀ d ∈ t.reverse.takeWhile (· = c), d = c := by
    intro d isDropped
    simpa using List.mem_takeWhile_imp isDropped
  refine ⟨(t.reverse.takeWhile (· = c)).length, ?_⟩
  rw [trimEnd, ← List.reverse_replicate, ← List.eq_replicate_of_mem areDropped,
    ← List.reverse_append, List.takeWhile_append_dropWhile, List.reverse_reverse]

end Text

namespace Source

/-- A text whose last line has its line break. -/
def EndsLine (t : Text) : Prop :=
  ∃ others, t = others ++ "\n"

theorem EndsLine.append
    {second : Text}
    (ends : EndsLine second)
    (first : Text) :
    EndsLine (first ++ second) := by
  obtain ⟨others, rfl⟩ := ends
  exact ⟨first ++ others, (List.append_assoc _ _ _).symm⟩

/-- Lines that stand in a text one after another, the last of them not empty, stand so in
another text. -/
def IsPart (t whole : Text) : Prop :=
  ∀ block, block.getLast? ≠ some [] → block <:+: lines t → block <:+: lines whole

theorem IsPart.trans
    {first second third : Text}
    (ofFirst : IsPart first second)
    (ofSecond : IsPart second third) :
    IsPart first third :=
  fun block written stands => ofSecond block written (ofFirst block written stands)

end Source

end ContractBindings
