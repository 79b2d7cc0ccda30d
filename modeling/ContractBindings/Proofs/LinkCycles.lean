import ContractBindings.Config.State
import Mathlib.Logic.Relation

namespace ContractBindings

open Relation

/-!
# Circles of links

While files are loaded, the links between them are collected in a list.  The
files that can be reached are saturated in rounds, and no more rounds are
needed than there are links.

Main statement: `Loading.mem_onCycles_iff`.
-/

namespace Config.Loading

/-- A file names another one directly. -/
def Linked (links : List (AbsolutePath × AbsolutePath)) (source target : AbsolutePath) : Prop :=
  (source, target) ∈ links

variable {links : List (AbsolutePath × AbsolutePath)}

/-!
## Rounds of saturation
-/

/-- The files that one round adds. -/
def frontier (links : List (AbsolutePath × AbsolutePath)) (paths : List AbsolutePath) :
    List AbsolutePath :=
  (links.filter fun (source, target) =>
    paths.contains source && ! paths.contains target).map (·.2)

/-- The links that lead out of what is known, from wherever they come. -/
def outward (links : List (AbsolutePath × AbsolutePath)) (paths : List AbsolutePath) :
    List (AbsolutePath × AbsolutePath) :=
  links.filter fun link => ! paths.contains link.2

theorem mem_frontier_iff
    {paths : List AbsolutePath}
    {target : AbsolutePath} :
    target ∈ frontier links paths ↔
      target ∉ paths ∧ ∃ source ∈ paths, Linked links source target := by
  simp only [frontier, Linked, List.mem_map, List.mem_filter, Bool.and_eq_true,
    List.contains_iff_mem, Bool.not_eq_true', Bool.eq_false_iff, ne_eq, Prod.exists]
  constructor
  · rintro ⟨source, other, ⟨isLink, isKnown, isNew⟩, rfl⟩
    exact ⟨isNew, source, isKnown, isLink⟩
  · rintro ⟨isNew, source, isKnown, isLink⟩
    exact ⟨source, target, ⟨isLink, isKnown, isNew⟩, rfl⟩

theorem reachable_succ
    (links : List (AbsolutePath × AbsolutePath))
    (fuel : Nat)
    (paths : List AbsolutePath) :
    reachable links (fuel + 1) paths =
      if frontier links paths = [] then paths
      else reachable links fuel (paths ++ (frontier links paths).eraseDups) := by
  rw [reachable]
  simp only [List.isEmpty_iff]
  rfl

/-- A round that adds a file leaves fewer links that lead out. -/
theorem outward_lt_of_frontier
    {paths : List AbsolutePath}
    (isNew : frontier links paths ≠ []) :
    (outward links (paths ++ (frontier links paths).eraseDups)).length <
      (outward links paths).length := by
  obtain ⟨target, isTarget⟩ := List.exists_mem_of_ne_nil _ isNew
  obtain ⟨notKnown, source, -, isLink⟩ := mem_frontier_iff.mp isTarget
  have fewer : outward links (paths ++ (frontier links paths).eraseDups) =
      (outward links paths).filter fun link => ! (frontier links paths).contains link.2 := by
    simp only [outward, List.filter_filter]
    refine List.filter_congr fun link _ => ?_
    simp [Bool.and_comm]
  rw [fewer]
  refine List.length_filter_lt_length_iff_exists.mpr ⟨(source, target), ?_, ?_⟩
  · simpa [outward] using ⟨isLink, notKnown⟩
  · simpa using isTarget

/-- What was known stays known. -/
theorem mem_reachable_of_mem
    {fuel : Nat}
    {paths : List AbsolutePath}
    {path : AbsolutePath}
    (member : path ∈ paths) :
    path ∈ reachable links fuel paths := by
  induction fuel generalizing paths with
  | zero =>
      exact member
  | succ fuel inductionHypothesis =>
      rw [reachable_succ]
      split
      · exact member
      · exact inductionHypothesis (List.mem_append_left _ member)

/-- Whatever is found is reached over links. -/
theorem exists_of_mem_reachable
    {fuel : Nat}
    {paths : List AbsolutePath}
    {path : AbsolutePath}
    (member : path ∈ reachable links fuel paths) :
    ∃ start ∈ paths, ReflTransGen (Linked links) start path := by
  induction fuel generalizing paths with
  | zero =>
      exact ⟨path, member, .refl⟩
  | succ fuel inductionHypothesis =>
      rw [reachable_succ] at member
      split at member
      · exact ⟨path, member, .refl⟩
      · obtain ⟨start, isStart, leads⟩ := inductionHypothesis member
        rcases List.mem_append.mp isStart with isKnown | isNew
        · exact ⟨start, isKnown, leads⟩
        · obtain ⟨-, source, isKnown, isLink⟩ :=
            mem_frontier_iff.mp (List.mem_eraseDups.mp isNew)
          exact ⟨source, isKnown, .head isLink leads⟩

/-- After as many rounds as there are links that lead out, none leads out of what
was found. -/
theorem mem_reachable_of_linked
    {fuel : Nat}
    {paths : List AbsolutePath}
    (enough : (outward links paths).length ≤ fuel)
    {source target : AbsolutePath}
    (member : source ∈ reachable links fuel paths)
    (isLink : Linked links source target) :
    target ∈ reachable links fuel paths := by
  -- Each round that is not the last one leaves fewer links that lead out.
  induction fuel generalizing paths with
  | zero =>
      have none : outward links paths = [] := List.length_eq_zero_iff.mp (Nat.le_zero.mp enough)
      have known := List.filter_eq_nil_iff.mp none (source, target) isLink
      simpa [reachable] using known
  | succ fuel inductionHypothesis =>
      rw [reachable_succ] at member ⊢
      by_cases isDone : frontier links paths = []
      · rw [if_pos isDone] at member ⊢
        refine Decidable.byContradiction fun isNew => ?_
        have added := mem_frontier_iff.mpr ⟨isNew, source, member, isLink⟩
        rw [isDone] at added
        cases added
      · rw [if_neg isDone] at member ⊢
        have fewer := outward_lt_of_frontier isDone
        exact inductionHypothesis (by omega) member

/-!
## Reaching a file
-/

/-- The successors of a file are what it reaches over one link or more. -/
theorem mem_successors_iff
    {source target : AbsolutePath} :
    target ∈ successors links source ↔ TransGen (Linked links) source target := by
  have mem_direct : ∀ path,
      path ∈ ((links.filter (·.1 = source)).map (·.2)).eraseDups ↔ Linked links source path := by
    intro path
    simp [Linked]
  constructor
  · intro member
    obtain ⟨start, isStart, leads⟩ := exists_of_mem_reachable member
    exact .head' ((mem_direct start).mp isStart) leads
  · intro leads
    induction leads with
    | single isLink =>
        exact mem_reachable_of_mem ((mem_direct _).mpr isLink)
    | tail _ isLink inductionHypothesis =>
        exact mem_reachable_of_linked (List.length_filter_le _ _) inductionHypothesis isLink

/-- The files on circles are those that reach themselves over links. -/
theorem mem_onCycles_iff
    {path : AbsolutePath} :
    path ∈ onCycles links ↔ TransGen (Linked links) path path := by
  rw [onCycles, List.mem_filter, List.mem_eraseDups, List.contains_iff_mem, mem_successors_iff]
  refine and_iff_right_of_imp fun leads => ?_
  obtain ⟨target, isLink, -⟩ := TransGen.head'_iff.mp leads
  exact List.mem_map_of_mem isLink

/-- There are no circles if no file reaches itself. -/
theorem onCycles_eq_nil_iff :
    onCycles links = [] ↔ ∀ path, ¬ TransGen (Linked links) path path := by
  simp only [List.eq_nil_iff_forall_not_mem, mem_onCycles_iff]

end Config.Loading

end ContractBindings
