import Mathlib.Data.List.Basic
import ContractBindings.Config.Memory

namespace ContractBindings

/-!
# Options in memory

What is written at a place is read there.  As long as a program writes only where it made
the table itself, everything that was in memory before stays as it was.

Main statement: `Memory.Extends.read_eq`.
-/

namespace Memory

variable {memory old : Memory} {place : Nat}

/-- Every table refers to options of a generator that are there. -/
def IsSound (memory : Memory) : Prop :=
  ∀ table ∈ memory.tables, ∀ there ∈ table.generator, there < memory.generators.length

theorem isSound_empty :
    empty.IsSound :=
  nofun

/-!
## Reading what was written
-/

@[simp]
theorem length_tables_write
    (memory : Memory)
    (place : Nat)
    (options : Options) :
    (memory.write place options).tables.length = memory.tables.length := by
  rw [write]
  split
  · rfl
  · split <;> exact List.length_set

theorem read_write
    (sound : memory.IsSound)
    (isMade : place < memory.tables.length)
    (options : Options) :
    (memory.write place options).read place = options := by
  obtain ⟨subconfigs, generator⟩ := options
  have isThere : memory.tables[place]? = some memory.tables[place] :=
    List.getElem?_eq_getElem isMade
  rw [write, isThere]
  cases generator with
  | none =>
      simp [read, List.getElem?_set_self isMade]
  | some generator =>
      cases isShared : memory.tables[place].generator with
      | none =>
          simp [read, List.getElem?_set_self isMade, isShared]
      | some there =>
          have isKnown : there < memory.generators.length :=
            sound _ (List.getElem_mem isMade) there isShared
          simp [read, List.getElem?_set_self isMade, isShared, List.getElem?_set_self isKnown]

theorem IsSound.write
    (sound : memory.IsSound)
    (place : Nat)
    (options : Options) :
    (memory.write place options).IsSound := by
  rw [Memory.write]
  split
  case h_1 =>
    exact sound
  case h_2 table isThere =>
    split
    all_goals
      intro other isMember there isPlace
      rcases List.mem_or_eq_of_mem_set isMember with isOther | rfl
    · exact sound other isOther there isPlace
    · cases isPlace
    · rw [List.length_set]
      exact sound other isOther there isPlace
    · cases isPlace
      rw [List.length_set]
      exact sound table (List.mem_of_getElem? isThere) _ (by assumption)
    · exact Nat.lt_of_lt_of_le (sound other isOther there isPlace) (by simp)
    · cases isPlace
      simp

/-!
## Options at new places
-/

/-- A memory with all that was in another one, and with a table at a new place that refers to
nothing of it. -/
structure Extends (old memory : Memory) (place : Nat) : Prop where
  tables : old.tables <+: memory.tables
  generators : old.generators <+: memory.generators
  isNew : old.tables.length ≤ place
  isApart :
    ∀ table ∈ memory.tables[place]?, ∀ there ∈ table.generator, old.generators.length ≤ there

theorem prefix_set
    {known all : List α}
    (isStart : known <+: all)
    {place : Nat}
    (isNew : known.length ≤ place)
    (a : α) :
    known <+: all.set place a := by
  obtain ⟨others, rfl⟩ := isStart
  rw [List.set_append_right place a isNew]
  exact List.prefix_append known _

/-- What is written at the new place changes nothing that was there. -/
theorem Extends.write
    (isExtended : old.Extends memory place)
    (isMade : place < memory.tables.length)
    (options : Options) :
    old.Extends (memory.write place options) place := by
  obtain ⟨tables, generators, isNew, isApart⟩ := isExtended
  have isThere : memory.tables[place]? = some memory.tables[place] :=
    List.getElem?_eq_getElem isMade
  rw [isThere] at isApart
  rw [Memory.write, isThere]
  refine ⟨?_, ?_, isNew, ?_⟩
  · dsimp only
    split <;> exact prefix_set tables isNew _
  · dsimp only
    split
    case h_1 =>
      exact generators
    case h_2 isShared =>
      exact prefix_set generators (isApart _ rfl _ isShared) _
    case h_3 =>
      exact generators.trans (List.prefix_append _ _)
  · dsimp only
    split
    all_goals
      rw [List.getElem?_set_self isMade]
      intro table isTable there isPlace
      cases isTable
      cases isPlace
    case h_2 isShared =>
      exact isApart _ rfl _ isShared
    case h_3 =>
      exact generators.length_le

theorem IsSound.addTable
    (sound : memory.IsSound) :
    IsSound { memory with tables := memory.tables ++ [⟨none, none⟩] } := by
  intro table isMember there isPlace
  rcases List.mem_append.mp isMember with isOld | isAdded
  · exact sound table isOld there isPlace
  · cases List.mem_singleton.mp isAdded
    cases isPlace

theorem IsSound.store
    (sound : memory.IsSound)
    (options : Options) :
    (memory.store options).1.IsSound :=
  sound.addTable.write _ options

theorem isMade_store
    (memory : Memory)
    (options : Options) :
    (memory.store options).2 < (memory.store options).1.tables.length := by
  simp [store]

theorem read_store
    (sound : memory.IsSound)
    (options : Options) :
    (memory.store options).1.read (memory.store options).2 = options :=
  read_write sound.addTable (by simp) options

/-- Options are stored at a new place. -/
theorem extends_store
    (memory : Memory)
    (options : Options) :
    memory.Extends (memory.store options).1 (memory.store options).2 := by
  have ofTable :
      memory.Extends { memory with tables := memory.tables ++ [⟨none, none⟩] }
        memory.tables.length := by
    refine ⟨List.prefix_append _ _, List.prefix_rfl, Nat.le_refl _, ?_⟩
    intro table isTable there isPlace
    rw [List.getElem?_concat_length] at isTable
    cases isTable
    cases isPlace
  exact ofTable.write (by simp) options

/-- What was in memory before reads as before. -/
theorem Extends.read_eq
    (isExtended : old.Extends memory place)
    (sound : old.IsSound)
    {known : Nat}
    (isKnown : known < old.tables.length) :
    memory.read known = old.read known := by
  obtain ⟨⟨otherTables, sameTables⟩, ⟨otherGenerators, sameGenerators⟩, -, -⟩ := isExtended
  have isTable : old.tables[known]? = some old.tables[known] :=
    List.getElem?_eq_getElem isKnown
  rw [read, read, ← sameTables, ← sameGenerators, List.getElem?_append_left isKnown, isTable]
  cases isShared : old.tables[known].generator with
  | none =>
      simp [isShared]
  | some there =>
      have isThere := sound _ (List.getElem_mem isKnown) there isShared
      simp [isShared, List.getElem?_append_left isThere]

end Memory

end ContractBindings
