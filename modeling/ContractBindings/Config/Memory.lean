import ContractBindings.Config.Options

namespace ContractBindings

/-!
# Options in memory

Options are kept in tables, and the table of all options refers to another one for those of
the generator.  A table is known by its place: whoever has the place sees what is written
there, so options that are changed where they stand are changed for everyone.
-/

/-- A table of options. -/
structure OptionTable where
  subconfigs : Option (List AbsolutePath)
  /-- The place of the options of the generator. -/
  generator : Option Nat

/-- The tables that were made so far. -/
structure Memory where
  tables : List OptionTable
  generators : List GeneratorOptions

namespace Memory

/-- No tables. -/
def empty : Memory :=
  ⟨[], []⟩

/-- The options at a place. -/
def read (memory : Memory) (place : Nat) : Options :=
  match memory.tables[place]? with
  | none => .none
  | some table => ⟨table.subconfigs, table.generator.bind (memory.generators[·]?)⟩

/-- Puts options at a place.  Options of the generator that are there are overwritten where
they stand, and otherwise get a table of their own. -/
def write (memory : Memory) (place : Nat) (options : Options) : Memory :=
  match memory.tables[place]? with
  | none => memory
  | some table =>
      match options.generator, table.generator with
      | none, _ =>
          { memory with tables := memory.tables.set place ⟨options.subconfigs, none⟩ }
      | some generator, some there =>
          { tables := memory.tables.set place ⟨options.subconfigs, some there⟩
            generators := memory.generators.set there generator }
      | some generator, none =>
          { tables :=
              memory.tables.set place ⟨options.subconfigs, some memory.generators.length⟩
            generators := memory.generators ++ [generator] }

/-- Puts options at a new place. -/
def store (memory : Memory) (options : Options) : Memory × Nat :=
  let place := memory.tables.length
  (write { memory with tables := memory.tables ++ [⟨none, none⟩] } place options, place)

end Memory

end ContractBindings
