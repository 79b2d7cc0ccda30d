import ContractBindings.Proofs.FileWalk

namespace ContractBindings

open Relation

/-!
# Files that list each other in a circle

The walk over files ends, and whether it succeeds depends on nothing but the files that list
each other: on several ways to a file it is loaded again, and a path without a file is
passed over.

Main statement: sound files are loaded if and only if no circle is reached from the first
one.
-/

namespace Config

/-- Loading sound files ends, with the same outcome without a bound on chains and under every
bound from the number of files on.  It succeeds if no circle is reached from the first file.
If one is reached, the configuration stays as it is, and the failure tells files that are
reached and that list themselves, directly or over other files. -/
theorem load_succeeds_or_tells_circle
    (surroundings : Surroundings)
    (config : Config)
    (path : AbsolutePath)
    (sound : surroundings.files.IsSound path) :
    (∃ loading failure?,
      Loading.Walk surroundings.files none [path] ⟨config.stored, [], [], []⟩ loading failure? ∧
        ∀ fuel, surroundings.files.files.length + 2 ≤ fuel →
          Loading.loadFile surroundings.files fuel none path ⟨config.stored, [], [], []⟩ =
            (loading, failure?)) ∧
    (¬ surroundings.files.HasCircle path →
      ∃ loaded logs, config.load surroundings path = (loaded, none, logs)) ∧
    (surroundings.files.HasCircle path →
      ∃ paths logs,
        config.load surroundings path = (config, some (.cycle paths), logs) ∧ paths ≠ [] ∧
          ∀ told ∈ paths,
            ReflTransGen surroundings.files.Lists path told ∧
              TransGen surroundings.files.Lists told told) := by
  obtain ⟨after, failure?, walk, ofFuel⟩ := Loading.exists_walk sound config.stored
  have isLoaded := ofFuel _ (Nat.le_refl _)
  refine ⟨⟨after, failure?, walk, ofFuel⟩, ?_⟩
  cases failure? with
  | none =>
      obtain ⟨order, visits, -⟩ := walk.visits rfl
      have noCircle := visits.not_hasCircle path (List.mem_singleton_self path)
      exact ⟨fun _ => ⟨_, _, load_of_loaded isLoaded⟩,
        fun hasCircle => absurd hasCircle noCircle⟩
  | some failure =>
      obtain ⟨rfl, isClosed⟩ := walk.eq_cycle
      exact ⟨fun noCircle => absurd (walk.hasCircle rfl) noCircle,
        fun _ => ⟨_, _, load_of_failure isLoaded, isClosed,
          fun _ => walk.lists_of_mem_onCycles rfl⟩⟩

/-- Surroundings with nothing but files and a place for those of the user. -/
def ofFiles (files : List (AbsolutePath × Text)) : Surroundings :=
  ⟨⟨files, []⟩, [("XDG_CONFIG_HOME", "/user")], "Linux", "/root", ⟨[]⟩⟩

/-- A configuration that has not loaded anything. -/
def untouched : Config :=
  ⟨⟨[]⟩, below "/user" "abitypes/config.toml", ⟨["abitypes.toml"]⟩, .defaults ⟨[]⟩, .none, []⟩

/-- One file is listed by two others, and one that is listed is not there. -/
def diamond : Surroundings :=
  ofFiles
    [(⟨["a.toml"]⟩, "subconfigs = [\"b.toml\", \"c/c.toml\", \"none.toml\"]"),
      (⟨["b.toml"]⟩, "subconfigs = [\"c/c.toml\"]"),
      (⟨["c", "c.toml"]⟩, "[generator]\nlocal_suffix = \"_c\"")]

/-- A file lists another one, which lists itself. -/
def loop : Surroundings :=
  ofFiles
    [(⟨["a.toml"]⟩, "subconfigs = [\"b.toml\"]"),
      (⟨["b.toml"]⟩, "subconfigs = [\"b.toml\"]")]

theorem load_succeeds_or_tells_circle_of_diamond_and_loop :
    (diamond.files.IsSound ⟨["a.toml"]⟩ ∧ ¬ diamond.files.HasCircle ⟨["a.toml"]⟩ ∧
      ∃ loaded logs, untouched.load diamond ⟨["a.toml"]⟩ = (loaded, none, logs)) ∧
    (loop.files.IsSound ⟨["a.toml"]⟩ ∧ loop.files.HasCircle ⟨["a.toml"]⟩ ∧
      ∃ paths logs,
        untouched.load loop ⟨["a.toml"]⟩ = (untouched, some (.cycle paths), logs) ∧ paths ≠ [] ∧
          ∀ told ∈ paths,
            ReflTransGen loop.files.Lists ⟨["a.toml"]⟩ told ∧
              TransGen loop.files.Lists told told) := by
  have closedDiamond : diamond.files.checkClosed
      [⟨["a.toml"]⟩, ⟨["b.toml"]⟩, ⟨["c", "c.toml"]⟩, ⟨["none.toml"]⟩] = true := by
    decide +kernel
  have soundDiamond : diamond.files.IsSound ⟨["a.toml"]⟩ :=
    FileTree.isSound_of_checkClosed closedDiamond List.mem_cons_self (by decide +kernel)
      (by decide +kernel)
  have order : diamond.files.findOrder 5 [⟨["a.toml"]⟩] =
      some [⟨["a.toml"]⟩, ⟨["b.toml"]⟩, ⟨["c", "c.toml"]⟩, ⟨["c", "c.toml"]⟩] := by
    decide +kernel
  have noCircle : ¬ diamond.files.HasCircle ⟨["a.toml"]⟩ :=
    (FileTree.visits_of_findOrder order).not_hasCircle _ (List.mem_singleton_self _)
  have closedLoop : loop.files.checkClosed [⟨["a.toml"]⟩, ⟨["b.toml"]⟩] = true := by
    decide +kernel
  have soundLoop : loop.files.IsSound ⟨["a.toml"]⟩ :=
    FileTree.isSound_of_checkClosed closedLoop List.mem_cons_self (by decide +kernel)
      (by decide +kernel)
  have hasCircle : loop.files.HasCircle ⟨["a.toml"]⟩ := by
    refine ⟨⟨["b.toml"]⟩, .single ⟨?_, ?_⟩, .single ⟨?_, ?_⟩⟩ <;> decide +kernel
  exact ⟨⟨soundDiamond, noCircle,
      (load_succeeds_or_tells_circle diamond untouched _ soundDiamond).2.1 noCircle⟩,
    soundLoop, hasCircle,
      (load_succeeds_or_tells_circle loop untouched _ soundLoop).2.2 hasCircle⟩

/-- Nothing is taken from a file that lists a path first at which nothing can be looked for. -/
theorem load_of_refused
    {surroundings : Surroundings}
    {path refused : AbsolutePath}
    {others : List AbsolutePath}
    (accepted : surroundings.files.IsAccepted path)
    (listed : surroundings.files.listed path = refused :: others)
    (isMissing : surroundings.files.isFile refused = false)
    (isRefused : surroundings.files.isRefused refused = true)
    (config : Config) :
    config.load surroundings path = (config, some (.fault .longName), []) := by
  have isOpen :
      Loading.onCycles (Loading.visit ⟨config.stored, [], [], []⟩ none path).links = [] := by
    rfl
  obtain ⟨fuel, isFuel⟩ : ∃ fuel, surroundings.files.files.length + 2 = fuel + 2 :=
    ⟨_, rfl⟩
  rw [load, isFuel, Loading.loadFile_of_accepted accepted, if_pos isOpen, listed,
    Loading.loadFiles, Loading.loadFile_of_missing isMissing, if_pos isRefused]
  rfl

/-- A name that no file can have. -/
def longName : Text :=
  List.replicate 256 'a'

/-- A file lists another one under a name that no file can have. -/
def unnameable : Surroundings :=
  ofFiles [(⟨["a.toml"]⟩, ("subconfigs = [\"" : Text) ++ longName ++ "\"]")]

/-- Files that list each other in no circle are not loaded, although all that are there are
accepted. -/
theorem load_unnameable_fails :
    (∀ path, ReflTransGen unnameable.files.Lists ⟨["a.toml"]⟩ path →
      unnameable.files.isFile path = true → unnameable.files.IsAccepted path) ∧
    ¬ unnameable.files.HasCircle ⟨["a.toml"]⟩ ∧
    untouched.load unnameable ⟨["a.toml"]⟩ = (untouched, some (.fault .longName), []) := by
  have closed : unnameable.files.checkClosed [⟨["a.toml"]⟩, ⟨[longName]⟩] = true := by
    decide +kernel
  have accepted := FileTree.isAccepted_of_checkClosed closed List.mem_cons_self
    (by decide +kernel)
  have order : unnameable.files.findOrder 3 [⟨["a.toml"]⟩] = some [⟨["a.toml"]⟩] := by
    decide +kernel
  have listed : unnameable.files.listed ⟨["a.toml"]⟩ = [⟨[longName]⟩] := by
    decide +kernel
  refine ⟨accepted, ?_, ?_⟩
  · exact (FileTree.visits_of_findOrder order).not_hasCircle _ (List.mem_singleton_self _)
  · exact load_of_refused (accepted _ .refl (by decide +kernel)) listed (by decide +kernel)
      (by decide +kernel) untouched

end Config

end ContractBindings
