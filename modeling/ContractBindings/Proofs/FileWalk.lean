import ContractBindings.Proofs.LinkCycles
import ContractBindings.Proofs.OptionFiles
import Mathlib.Data.List.Chain
import Mathlib.Data.List.Perm.Subperm

namespace ContractBindings

open Relation

/-!
# The walk over files

Files are loaded by a walk that remembers only which file named which, and gives up as
soon as these links close a circle.  The ancestors of a file are linked one to the next, so
while there is no circle they are all different, and no chain of files is longer than there
are files: the bound on its length is never felt.

Main statement: `Loading.exists_walk`.
-/

namespace Config

/-- A path is added unless it is there. -/
theorem mem_added_iff
    {paths : List AbsolutePath}
    {added path : AbsolutePath} :
    path ∈ (if paths.contains added then paths else paths ++ [added]) ↔
      path ∈ paths ∨ path = added := by
  split
  case isTrue isKnown =>
    rw [List.contains_iff_mem] at isKnown
    exact (or_iff_left_of_imp fun isAdded => isAdded ▸ isKnown).symm
  case isFalse =>
    rw [List.mem_append, List.mem_singleton]

namespace Loading

/-- What is known once a file is found and its options are taken. -/
def enter (tree : FileTree) (parent : Option AbsolutePath) (path : AbsolutePath)
    (loading : Loading) : Loading :=
  { loading.visit parent path with options := loading.options.merge (tree.written path) }

/-- Loading one file after another, without a bound on the length of chains. -/
inductive Walk (tree : FileTree) :
    (parent : Option AbsolutePath) → (paths : List AbsolutePath) →
      (before after : Loading) → (failure? : Option ConfigFailure) → Prop where
  | done
      {parent : Option AbsolutePath}
      {loading : Loading} :
      Walk tree parent [] loading loading none
  | missing
      {parent : Option AbsolutePath}
      {path : AbsolutePath}
      {paths : List AbsolutePath}
      {loading after : Loading}
      {failure? : Option ConfigFailure}
      (isMissing : tree.isFile path = false)
      (others :
        Walk tree parent paths { loading with logs := loading.logs ++ [missing parent path] }
          after failure?) :
      Walk tree parent (path :: paths) loading after failure?
  /-- The link to a file closes a circle. -/
  | closes
      {parent : Option AbsolutePath}
      {path : AbsolutePath}
      {paths : List AbsolutePath}
      {loading : Loading}
      (isFile : tree.isFile path = true)
      (isClosed : onCycles (loading.visit parent path).links ≠ []) :
      Walk tree parent (path :: paths) loading (loading.visit parent path)
        (some (.cycle (onCycles (loading.visit parent path).links)))
  /-- A file is entered, and one that it lists fails. -/
  | fails
      {parent : Option AbsolutePath}
      {path : AbsolutePath}
      {paths : List AbsolutePath}
      {loading after : Loading}
      {failure : ConfigFailure}
      (isFile : tree.isFile path = true)
      (isOpen : onCycles (loading.visit parent path).links = [])
      (ofListed :
        Walk tree (some path) (tree.listed path) (loading.enter tree parent path) after
          (some failure)) :
      Walk tree parent (path :: paths) loading after (some failure)
  | enters
      {parent : Option AbsolutePath}
      {path : AbsolutePath}
      {paths : List AbsolutePath}
      {loading middle after : Loading}
      {failure? : Option ConfigFailure}
      (isFile : tree.isFile path = true)
      (isOpen : onCycles (loading.visit parent path).links = [])
      (ofListed :
        Walk tree (some path) (tree.listed path) (loading.enter tree parent path) middle none)
      (others : Walk tree parent paths middle after failure?) :
      Walk tree parent (path :: paths) loading after failure?

variable {tree : FileTree} {parent : Option AbsolutePath} {paths : List AbsolutePath}
variable {before after : Loading} {failure? : Option ConfigFailure}

namespace Walk

/-!
## What a walk keeps and leaves
-/

/-- A first file that is loaded is followed by the others. -/
theorem cons
    {path : AbsolutePath}
    {middle : Loading}
    (ofFirst : Walk tree parent [path] before middle none)
    (others : Walk tree parent paths middle after failure?) :
    Walk tree parent (path :: paths) before after failure? := by
  cases ofFirst with
  | missing isMissing ofNone =>
      cases ofNone
      exact .missing isMissing others
  | enters isFile isOpen ofListed ofNone =>
      cases ofNone
      exact .enters isFile isOpen ofListed others

/-- A first file that fails is not followed by others. -/
theorem cons_of_failure
    {path : AbsolutePath}
    {failure : ConfigFailure}
    (ofFirst : Walk tree parent [path] before after (some failure)) :
    Walk tree parent (path :: paths) before after (some failure) := by
  cases ofFirst with
  | missing _ ofNone =>
      cases ofNone
  | closes isFile isClosed =>
      exact .closes isFile isClosed
  | fails isFile isOpen ofListed =>
      exact .fails isFile isOpen ofListed
  | enters _ _ _ ofNone =>
      cases ofNone

/-- There is no more than one walk. -/
theorem unique
    {other : Loading}
    {otherFailure? : Option ConfigFailure}
    (walk : Walk tree parent paths before after failure?)
    (walkOther : Walk tree parent paths before other otherFailure?) :
    after = other ∧ failure? = otherFailure? := by
  induction walk generalizing other otherFailure? with
  | done =>
      cases walkOther
      exact ⟨rfl, rfl⟩
  | missing isMissing _ ofOthers =>
      cases walkOther with
      | missing _ others =>
          exact ofOthers others
      | closes isFile | fails isFile | enters isFile =>
          rw [isMissing] at isFile
          cases isFile
  | closes isFile isClosed =>
      cases walkOther with
      | missing isMissing =>
          rw [isFile] at isMissing
          cases isMissing
      | closes =>
          exact ⟨rfl, rfl⟩
      | fails _ isOpen | enters _ isOpen =>
          exact absurd isOpen isClosed
  | fails isFile isOpen _ inListed =>
      cases walkOther with
      | missing isMissing =>
          rw [isFile] at isMissing
          cases isMissing
      | closes _ isClosed =>
          exact absurd isOpen isClosed
      | fails _ _ ofListed =>
          exact inListed ofListed
      | enters _ _ ofListed =>
          cases (inListed ofListed).2
  | enters isFile isOpen _ _ inListed inOthers =>
      cases walkOther with
      | missing isMissing =>
          rw [isFile] at isMissing
          cases isMissing
      | closes _ isClosed =>
          exact absurd isOpen isClosed
      | fails _ _ ofListed =>
          cases (inListed ofListed).2
      | enters _ _ ofListed others =>
          obtain ⟨rfl, -⟩ := inListed ofListed
          exact inOthers others

theorem mem_visit_links
    {loading : Loading}
    {path : AbsolutePath}
    {link : AbsolutePath × AbsolutePath} :
    link ∈ (loading.visit parent path).links ↔
      (parent = some link.1 ∧ path = link.2) ∨ link ∈ loading.links := by
  cases parent <;> simp [visit, Prod.ext_iff, eq_comm]

theorem mem_visit_loaded
    {loading : Loading}
    {path file : AbsolutePath} :
    file ∈ (loading.visit parent path).loaded ↔ file ∈ loading.loaded ∨ file = path := by
  exact mem_added_iff

/-- Links are only added. -/
theorem links_subset
    (walk : Walk tree parent paths before after failure?) :
    before.links ⊆ after.links := by
  induction walk with
  | done =>
      exact List.Subset.refl _
  | missing _ _ ofOthers =>
      exact ofOthers
  | closes =>
      exact fun _ isLink => mem_visit_links.mpr (.inr isLink)
  | fails _ _ _ ofListed =>
      exact fun _ isLink => ofListed (mem_visit_links.mpr (.inr isLink))
  | enters _ _ _ _ ofListed ofOthers =>
      exact fun _ isLink => ofOthers (ofListed (mem_visit_links.mpr (.inr isLink)))

theorem reachedLink_visit
    {start path : AbsolutePath}
    (ofBefore : ∀ link ∈ before.links, tree.IsReachedLink start link)
    (ofParent : ∀ source ∈ parent, tree.IsReachedLink start (source, path)) :
    ∀ link ∈ (before.visit parent path).links, tree.IsReachedLink start link := by
  intro link isLink
  rcases mem_visit_links.mp isLink with ⟨isParent, rfl⟩ | isKnown
  · exact ofParent link.1 isParent
  · exact ofBefore link isKnown

/-- What a file that is reached lists is reached from it. -/
theorem forall_listed
    {start path : AbsolutePath}
    (isFile : tree.isFile path = true)
    (isReached : ReflTransGen tree.Lists start path) :
    ∀ listed ∈ tree.listed path,
      ReflTransGen tree.Lists start listed ∧
        ∀ source ∈ some path, tree.IsReachedLink start (source, listed) := by
  intro listed isListed
  refine ⟨isReached.tail ⟨isFile, isListed⟩, fun source isSource => ?_⟩
  cases isSource
  exact ⟨isReached, isFile, isListed⟩

/-- As long as files are loaded the links close no circle. -/
theorem isOpen
    (walk : Walk tree parent paths before after failure?)
    (succeeds : failure? = none)
    (openBefore : onCycles before.links = []) :
    onCycles after.links = [] := by
  induction walk with
  | done =>
      exact openBefore
  | missing _ _ ofOthers =>
      exact ofOthers succeeds openBefore
  | closes | fails =>
      cases succeeds
  | enters _ isOpen _ _ ofListed ofOthers =>
      exact ofOthers succeeds (ofListed rfl isOpen)

/-- A failure tells the files on the circles that the links close. -/
theorem eq_cycle
    {failure : ConfigFailure}
    (walk : Walk tree parent paths before after (some failure)) :
    failure = .cycle (onCycles after.links) ∧ onCycles after.links ≠ [] := by
  generalize fails : some failure = failure? at walk
  induction walk with
  | done =>
      cases fails
  | missing _ _ ofOthers | enters _ _ _ _ _ ofOthers =>
      exact ofOthers fails
  | closes _ isClosed =>
      cases fails
      exact ⟨rfl, isClosed⟩
  | fails _ _ _ ofListed =>
      exact ofListed fails

/-- All links are between files that are reached. -/
theorem reachedLink
    {start : AbsolutePath}
    (walk : Walk tree parent paths before after failure?)
    (ofBefore : ∀ link ∈ before.links, tree.IsReachedLink start link)
    (ofPaths :
      ∀ path ∈ paths,
        ReflTransGen tree.Lists start path ∧
          ∀ source ∈ parent, tree.IsReachedLink start (source, path)) :
    ∀ link ∈ after.links, tree.IsReachedLink start link := by
  induction walk with
  | done =>
      exact ofBefore
  | missing _ _ ofOthers =>
      exact ofOthers ofBefore (List.forall_mem_cons.mp ofPaths).2
  | closes =>
      exact reachedLink_visit ofBefore (List.forall_mem_cons.mp ofPaths).1.2
  | fails isFile _ _ ofListed =>
      obtain ⟨⟨isReached, ofParent⟩, -⟩ := List.forall_mem_cons.mp ofPaths
      exact ofListed (reachedLink_visit ofBefore ofParent) (forall_listed isFile isReached)
  | enters isFile _ _ _ ofListed ofOthers =>
      obtain ⟨⟨isReached, ofParent⟩, ofRest⟩ := List.forall_mem_cons.mp ofPaths
      exact ofOthers
        (ofListed (reachedLink_visit ofBefore ofParent) (forall_listed isFile isReached)) ofRest

/-- Where links close a circle, the files on it are reached and list themselves. -/
theorem lists_of_mem_onCycles
    {start path : AbsolutePath}
    (walk : Walk tree none [start] before after failure?)
    (noLinks : before.links = [])
    (isOnCircle : path ∈ onCycles after.links) :
    ReflTransGen tree.Lists start path ∧ TransGen tree.Lists path path := by
  have areReached : ∀ link ∈ after.links, tree.IsReachedLink start link := by
    refine walk.reachedLink (noLinks ▸ nofun) fun listed isStart => ?_
    rw [List.mem_singleton.mp isStart]
    exact ⟨.refl, nofun⟩
  have leadsBack := mem_onCycles_iff.mp isOnCircle
  obtain ⟨next, isLink, -⟩ := TransGen.head'_iff.mp leadsBack
  exact ⟨(areReached _ isLink).1, leadsBack.lift id fun _ _ isLink => (areReached _ isLink).2⟩

/-- A walk fails only where a circle is reached. -/
theorem hasCircle
    {start : AbsolutePath}
    {failure : ConfigFailure}
    (walk : Walk tree none [start] before after (some failure))
    (noLinks : before.links = []) :
    tree.HasCircle start := by
  obtain ⟨path, isOnCircle⟩ := List.exists_mem_of_ne_nil _ walk.eq_cycle.2
  exact ⟨path, walk.lists_of_mem_onCycles noLinks isOnCircle⟩

/-- A walk that ends visits files in their order and takes the options of each. -/
theorem visits
    (walk : Walk tree parent paths before after failure?)
    (succeeds : failure? = none) :
    ∃ order,
      tree.Visits paths order ∧
        after.options =
          order.foldl (fun options path => options.merge (tree.written path)) before.options ∧
        ∀ file, file ∈ after.loaded ↔ file ∈ before.loaded ∨ file ∈ order := by
  induction walk with
  | done =>
      exact ⟨[], .done, rfl, by simp⟩
  | missing isMissing _ ofOthers =>
      obtain ⟨order, visits, options, loaded⟩ := ofOthers succeeds
      exact ⟨order, .missing isMissing visits, options, loaded⟩
  | closes | fails =>
      cases succeeds
  | enters isFile _ _ _ ofListed ofOthers =>
      obtain ⟨below, visitsBelow, optionsBelow, loadedBelow⟩ := ofListed rfl
      obtain ⟨order, visits, options, loaded⟩ := ofOthers succeeds
      refine ⟨_, .file isFile visitsBelow visits, ?_, fun file => ?_⟩
      · rw [options, optionsBelow, List.foldl_cons, List.foldl_append]
        rfl
      · rw [loaded, loadedBelow, enter, mem_visit_loaded, List.mem_cons, List.mem_append]
        simp only [or_assoc]

end Walk

/-!
## Chains of files
-/

/-- The files between the first one and a file that is being loaded, the last one first.
Each is linked to the one before it. -/
structure IsAncestry (tree : FileTree) (loading : Loading) (ancestors : List AbsolutePath) :
    Prop where
  areFiles : ∀ path ∈ ancestors, tree.isFile path = true
  areLinked : ancestors.IsChain fun target source => Linked loading.links source target
  isOpen : onCycles loading.links = []

namespace IsAncestry

variable {loading : Loading} {ancestors : List AbsolutePath}

/-- As long as there is no circle, no file is its own ancestor. -/
theorem nodup
    (ancestry : IsAncestry tree loading ancestors) :
    ancestors.Nodup := by
  let Reaches (target source : AbsolutePath) := TransGen (Linked loading.links) source target
  let _ : Trans Reaches Reaches Reaches := ⟨fun later earlier => earlier.trans later⟩
  have areReached : ancestors.IsChain Reaches := ancestry.areLinked.imp fun _ _ => .single
  refine areReached.pairwise.imp fun {target source} leads same => ?_
  subst same
  exact onCycles_eq_nil_iff.mp ancestry.isOpen _ leads

/-- No chain of files is longer than there are files. -/
theorem length_le
    (ancestry : IsAncestry tree loading ancestors) :
    ancestors.length ≤ tree.files.length := by
  have known : ancestors ⊆ tree.files.map (·.1) := by
    intro path isAncestor
    obtain ⟨file, isFile, samePath⟩ :=
      List.lookup_isSome_iff.mp (ancestry.areFiles path isAncestor)
    exact beq_iff_eq.mp samePath ▸ List.mem_map_of_mem isFile
  calc
    ancestors.length ≤ (tree.files.map (·.1)).length := (ancestry.nodup.subperm known).length_le
    _ = tree.files.length := List.length_map _

/-- A walk that succeeds keeps the ancestors. -/
theorem of_walk
    (ancestry : IsAncestry tree before ancestors)
    (walk : Walk tree parent paths before after none) :
    IsAncestry tree after ancestors :=
  ⟨ancestry.areFiles, ancestry.areLinked.imp fun _ _ isLink => walk.links_subset isLink,
    walk.isOpen rfl ancestry.isOpen⟩

/-- A file that is entered is an ancestor of those that it lists. -/
theorem enter
    {path : AbsolutePath}
    (ancestry : IsAncestry tree loading ancestors)
    (isFile : tree.isFile path = true)
    (isOpen : onCycles (loading.visit ancestors.head? path).links = []) :
    IsAncestry tree (loading.enter tree ancestors.head? path) (path :: ancestors) := by
  refine ⟨List.forall_mem_cons.mpr ⟨isFile, ancestry.areFiles⟩, ?_, isOpen⟩
  rw [List.isChain_cons]
  refine ⟨fun parent isParent => ?_, ?_⟩
  · exact Walk.mem_visit_links.mpr (.inl ⟨isParent, rfl⟩)
  · exact ancestry.areLinked.imp fun _ _ isLink => Walk.mem_visit_links.mpr (.inr isLink)

end IsAncestry

/-!
## The bound on chains
-/

/-- A path without a file is passed over, unless it cannot even be asked about. -/
theorem loadFile_of_missing
    {path : AbsolutePath}
    (isMissing : tree.isFile path = false)
    (fuel : Nat)
    (loading : Loading) :
    loadFile tree (fuel + 1) parent path loading =
      if tree.isRefused path then (loading, some (.fault .longName))
      else ({ loading with logs := loading.logs ++ [missing parent path] }, none) := by
  have noText : tree.read? path = none := by
    simpa [FileTree.isFile] using isMissing
  rw [loadFile, noText]

/-- A file that is accepted is entered, unless its link closes a circle. -/
theorem loadFile_of_accepted
    {path : AbsolutePath}
    (accepted : tree.IsAccepted path)
    (fuel : Nat)
    (loading : Loading) :
    loadFile tree (fuel + 1) parent path loading =
      if onCycles (loading.visit parent path).links = [] then
        loadFiles tree fuel path (tree.listed path) (loading.enter tree parent path)
      else
        (loading.visit parent path,
          some (.cycle (onCycles (loading.visit parent path).links))) := by
  obtain ⟨text, entries, isText, isRead, isAccepted⟩ := accepted.exists_read
  rw [loadFile, isText]
  simp only [isRead, takeOptions, isAccepted]
  by_cases isOpen : onCycles (loading.visit parent path).links = []
  · rw [if_pos isOpen, isOpen]
    rfl
  · rw [if_neg isOpen, if_pos (by simpa using isOpen)]
    rfl

/-- If each file is loaded by a walk, so are files one after another. -/
theorem walk_loadFiles
    {fuel : Nat}
    {parent : AbsolutePath}
    {ancestors paths : List AbsolutePath}
    (each :
      ∀ path loading,
        tree.IsSound path → IsAncestry tree loading (parent :: ancestors) →
          Walk tree (some parent) [path] loading
            (loadFile tree fuel (some parent) path loading).1
            (loadFile tree fuel (some parent) path loading).2)
    (sound : ∀ path ∈ paths, tree.IsSound path)
    (loading : Loading)
    (ancestry : IsAncestry tree loading (parent :: ancestors)) :
    Walk tree (some parent) paths loading
      (loadFiles tree fuel parent paths loading).1
      (loadFiles tree fuel parent paths loading).2 := by
  induction paths generalizing loading with
  | nil =>
      rw [loadFiles]
      exact .done
  | cons path paths inductionHypothesis =>
      obtain ⟨isSound, areSound⟩ := List.forall_mem_cons.mp sound
      have ofFirst := each path loading isSound ancestry
      rw [loadFiles]
      split
      case h_1 middle failure loaded =>
        rw [loaded] at ofFirst
        exact ofFirst.cons_of_failure
      case h_2 middle loaded =>
        rw [loaded] at ofFirst
        exact ofFirst.cons (inductionHypothesis areSound middle (ancestry.of_walk ofFirst))

/-- A bound that leaves room for as many files as there are is enough for a walk. -/
theorem walk_loadFile
    {fuel : Nat}
    {path : AbsolutePath}
    {ancestors : List AbsolutePath}
    (enough : tree.files.length + 2 ≤ fuel + ancestors.length)
    (sound : tree.IsSound path)
    (loading : Loading)
    (ancestry : IsAncestry tree loading ancestors) :
    Walk tree ancestors.head? [path] loading
      (loadFile tree fuel ancestors.head? path loading).1
      (loadFile tree fuel ancestors.head? path loading).2 := by
  induction fuel generalizing path ancestors loading with
  | zero =>
      -- The fuel would run out on a chain that is longer than there are files.
      have atMost := ancestry.length_le
      omega
  | succ fuel inductionHypothesis =>
      cases isFile : tree.isFile path with
      | false =>
          have isAllowed : ¬ tree.isRefused path = true := by
            rw [sound.allowed path .refl isFile]
            exact Bool.false_ne_true
          rw [loadFile_of_missing isFile, if_neg isAllowed]
          exact .missing isFile .done
      | true =>
          rw [loadFile_of_accepted (sound.accepted path .refl isFile)]
          split
          case isFalse isClosed =>
            exact .closes isFile isClosed
          case isTrue isOpen =>
            have room : tree.files.length + 2 ≤ fuel + (path :: ancestors).length := by
              simp only [List.length_cons]
              omega
            have ofListed := walk_loadFiles
              (fun path loading isSound => inductionHypothesis room isSound loading)
              (sound.forall_listed isFile) _ (ancestry.enter isFile isOpen)
            revert ofListed
            rcases loadFiles tree fuel path (tree.listed path)
              (loading.enter tree ancestors.head? path) with ⟨after, _ | failure⟩
            · exact fun ofListed => .enters isFile isOpen ofListed .done
            · exact fun ofListed => .fails isFile isOpen ofListed

/-- From a first file on, sound files are loaded by one walk, whatever the bound on chains
is from the number of files on. -/
theorem exists_walk
    {path : AbsolutePath}
    (sound : tree.IsSound path)
    (options : Options) :
    ∃ after failure?,
      Walk tree none [path] ⟨options, [], [], []⟩ after failure? ∧
        ∀ fuel, tree.files.length + 2 ≤ fuel →
          loadFile tree fuel none path ⟨options, [], [], []⟩ = (after, failure?) := by
  have ancestry : IsAncestry tree ⟨options, [], [], []⟩ [] := ⟨nofun, .nil, rfl⟩
  refine ⟨_, _, walk_loadFile (Nat.le_refl _) sound _ ancestry, fun fuel enough => ?_⟩
  obtain ⟨sameLoading, sameFailure⟩ := (walk_loadFile enough sound _ ancestry).unique
    (walk_loadFile (Nat.le_refl _) sound _ ancestry)
  exact Prod.ext sameLoading sameFailure

end Loading

theorem load_of_loaded
    {surroundings : Surroundings}
    {config : Config}
    {path : AbsolutePath}
    {loading : Loading}
    (isLoaded :
      Loading.loadFile surroundings.files (surroundings.files.files.length + 2) none path
        ⟨config.stored, [], [], []⟩ = (loading, none)) :
    config.load surroundings path =
      ({ config with
        stored := loading.options
        accepted := loading.options
        loaded := addPaths config.loaded loading.loaded }, none, loading.logs) := by
  rw [load, isLoaded]

theorem load_of_failure
    {surroundings : Surroundings}
    {config : Config}
    {path : AbsolutePath}
    {loading : Loading}
    {failure : ConfigFailure}
    (fails :
      Loading.loadFile surroundings.files (surroundings.files.files.length + 2) none path
        ⟨config.stored, [], [], []⟩ = (loading, some failure)) :
    config.load surroundings path = (config, some failure, loading.logs) := by
  rw [load, fails]

end Config

end ContractBindings
