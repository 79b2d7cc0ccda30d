import ContractBindings.Config.State
import Mathlib.Data.List.Forall2
import Mathlib.Logic.Relation

namespace ContractBindings

open Relation

/-!
# Files with options

What a file sets can be read off its entries, and so can the further files that it
lists.  The files that are reached in this way are visited depth first, each before the
files that it lists and again whenever it is listed.

Main statements: accepted options are those that the entries set, whatever else was checked,
and the files that are visited are those that are there and can be reached.
-/

namespace Checked

/-!
## Accepted documents
-/

theorem map_eq_accepted_iff
    {outcome : Checked α}
    {f : α → β}
    {result : β} :
    outcome.map f = .accepted result ↔ ∃ a, outcome = .accepted a ∧ f a = result := by
  cases outcome <;> simp [map]

theorem within_eq_accepted_iff
    {outcome : Checked α}
    {segment : Segment}
    {result : α} :
    outcome.within segment = .accepted result ↔ outcome = .accepted result := by
  cases outcome <;> simp [within]

/-- An outcome is applied to another one if both are accepted. -/
theorem apply_eq_accepted_iff
    {outcome : Checked (α → β)}
    {argument : Checked α}
    {result : β} :
    outcome.apply argument = .accepted result ↔
      ∃ f a, outcome = .accepted f ∧ argument = .accepted a ∧ f a = result := by
  cases outcome <;> cases argument <;> simp [apply, map]

/-- Outcomes are accepted together if each of them is. -/
theorem all_eq_accepted_iff
    {outcomes : List (Checked α)}
    {results : List α} :
    all outcomes = .accepted results ↔
      List.Forall₂ (fun outcome result => outcome = .accepted result) outcomes results := by
  induction outcomes generalizing results with
  | nil =>
      simp [all, eq_comm]
  | cons outcome outcomes inductionHypothesis =>
      simp only [all, apply_eq_accepted_iff, map_eq_accepted_iff, inductionHypothesis]
      constructor
      · rintro ⟨_, others, ⟨first, ofFirst, rfl⟩, ofOthers, rfl⟩
        exact .cons ofFirst ofOthers
      · rintro (_ | ⟨ofFirst, ofOthers⟩)
        exact ⟨_, _, ⟨_, ofFirst, rfl⟩, ofOthers, rfl⟩

/-- The index under which issues are told makes no difference to what is accepted. -/
theorem indexed_eq_accepted_iff
    {outcomes : List (Checked α)}
    {results : List α} :
    indexed outcomes = .accepted results ↔
      List.Forall₂ (fun outcome result => outcome = .accepted result) outcomes results := by
  rw [indexed, all_eq_accepted_iff]
  simp only [List.forall₂_iff_get, List.length_mapIdx, List.get_eq_getElem, List.getElem_mapIdx,
    within_eq_accepted_iff]

end Checked

theorem PathText.eq_of_resolve
    {directory path : AbsolutePath}
    {t : Text}
    (succeeds : PathText.resolve directory t = .ok path) :
    path = directory.resolve t := by
  rw [PathText.resolve] at succeeds
  cases checked : PathText.checkParts (if Text.startsWith t "/" then "/" else []) []
      (Text.split t '/') with
  | error failure =>
      rw [checked] at succeeds
      cases succeeds
  | ok _ =>
      rw [checked] at succeeds
      cases succeeds
      rfl

namespace Options

/-!
## Options that entries set
-/

/-- The path that a setting writes.  A relative one is taken from a directory. -/
def writtenPath (directory : AbsolutePath) : Setting → Option AbsolutePath
  | .text t => some (directory.resolve t)
  | _ => .none

def writtenPaths (directory : AbsolutePath) : Setting → Option (List AbsolutePath)
  | .list settings => some (settings.filterMap (writtenPath directory))
  | _ => .none

def writtenSuffix : Setting → Option Text
  | .text t => some t
  | _ => .none

/-- The options of the generator that a table sets. -/
def writtenGenerator (directory : AbsolutePath) : Setting → Option GeneratorOptions
  | .table entries =>
      some ⟨(Keyed.get? "output" entries).bind (writtenPath directory),
        (Keyed.get? "local_suffix" entries).bind writtenSuffix⟩
  | _ => .none

/-- The options that entries set, and no others. -/
def written (directory : AbsolutePath) (entries : Keyed Setting) : Options :=
  ⟨(entries.get? "subconfigs").bind (writtenPaths directory),
    (entries.get? "generator").bind (writtenGenerator directory)⟩

variable {directory : AbsolutePath} {setting : Setting}

/-- An option is set if it has an entry, to what the entry writes. -/
theorem eq_of_readOption
    {entries : Keyed Setting}
    {name : Text}
    {read : Setting → Checked α}
    {write : Setting → Option α}
    (agree : ∀ {setting a}, read setting = .accepted a → write setting = some a)
    {option : Option α}
    (accepted : readOption entries name read = .accepted option) :
    option = (entries.get? name).bind write := by
  rw [readOption] at accepted
  cases found : entries.get? name with
  | none =>
      rw [found] at accepted
      cases accepted
      rfl
  | some setting =>
      simp only [found, Checked.map_eq_accepted_iff, Checked.within_eq_accepted_iff] at accepted
      obtain ⟨a, isRead, rfl⟩ := accepted
      exact (agree isRead).symm

theorem writtenPath_of_readPath
    {path : AbsolutePath}
    (accepted : readPath directory setting = .accepted path) :
    writtenPath directory setting = some path := by
  cases setting with
  | text t =>
      simp only [readPath] at accepted
      cases resolved : PathText.resolve directory t with
      | error failure =>
          rw [resolved] at accepted
          cases accepted
      | ok resolvedPath =>
          rw [resolved] at accepted
          cases accepted
          rw [writtenPath, PathText.eq_of_resolve resolved]
  | scalar | list | table =>
      cases accepted

theorem writtenPaths_of_readPaths
    {paths : List AbsolutePath}
    (accepted : readPaths directory setting = .accepted paths) :
    writtenPaths directory setting = some paths := by
  cases setting with
  | list settings =>
      rw [readPaths, Checked.indexed_eq_accepted_iff, List.forall₂_map_left_iff] at accepted
      refine congrArg some ?_
      induction accepted with
      | nil =>
          rfl
      | cons first _ inductionHypothesis =>
          rw [List.filterMap_cons_some (writtenPath_of_readPath first), inductionHypothesis]
  | scalar | text | table =>
      cases accepted

theorem writtenSuffix_of_readSuffix
    {suffix : Text}
    (accepted : readSuffix setting = .accepted suffix) :
    writtenSuffix setting = some suffix := by
  cases setting with
  | text t =>
      rw [readSuffix] at accepted
      split at accepted <;> cases accepted
      rfl
  | scalar | list | table =>
      cases accepted

theorem writtenGenerator_of_readGenerator
    {options : GeneratorOptions}
    (accepted : readGenerator directory setting = .accepted options) :
    writtenGenerator directory setting = some options := by
  cases setting with
  | table entries =>
      simp only [readGenerator, Checked.apply_eq_accepted_iff, Checked.map_eq_accepted_iff]
        at accepted
      obtain ⟨_, _, ⟨_, suffix, ⟨output, isOutput, rfl⟩, isSuffix, rfl⟩, -, rfl⟩ := accepted
      rw [writtenGenerator, ← eq_of_readOption writtenPath_of_readPath isOutput,
        ← eq_of_readOption writtenSuffix_of_readSuffix isSuffix]
  | scalar | text | list =>
      cases accepted

/-- Options that are read are those that the entries set. -/
theorem eq_written_of_read
    {entries : Keyed Setting}
    {options : Options}
    (accepted : read directory (.table entries) = .accepted options) :
    options = written directory entries := by
  simp only [read, Checked.apply_eq_accepted_iff, Checked.map_eq_accepted_iff] at accepted
  obtain ⟨_, _, ⟨_, generator, ⟨subconfigs, isSubconfigs, rfl⟩, isGenerator, rfl⟩, -, rfl⟩ :=
    accepted
  rw [written, ← eq_of_readOption writtenPaths_of_readPaths isSubconfigs,
    ← eq_of_readOption writtenGenerator_of_readGenerator isGenerator]

end Options

namespace FileTree

/-!
## Files that list files
-/

/-- The entries of a file, none if it has no readable ones. -/
def entries (tree : FileTree) (path : AbsolutePath) : Keyed Setting :=
  ((tree.read? path).bind fun text => (Toml.read text).toOption).getD []

/-- The options that a file sets.  Its relative paths are taken from its directory. -/
def written (tree : FileTree) (path : AbsolutePath) : Options :=
  Options.written path.parent (tree.entries path)

/-- The further files that a file lists, in its order. -/
def listed (tree : FileTree) (path : AbsolutePath) : List AbsolutePath :=
  (tree.written path).subconfigs.getD []

/-- A file that is there lists another one, which may be there or not. -/
def Lists (tree : FileTree) (source target : AbsolutePath) : Prop :=
  tree.isFile source = true ∧ target ∈ tree.listed source

/-- A file is there, follows the notation, and its options are accepted. -/
def IsAccepted (tree : FileTree) (path : AbsolutePath) : Prop :=
  ∃ text entries options,
    tree.read? path = some text ∧ Toml.read text = .ok entries ∧
      Options.read path.parent (.table entries) = .accepted options

/-- All files that are reached from a path are accepted, and wherever there is none, it
can be asked whether there is one. -/
structure IsSound (tree : FileTree) (start : AbsolutePath) : Prop where
  accepted :
    ∀ path, ReflTransGen tree.Lists start path → tree.isFile path = true → tree.IsAccepted path
  allowed :
    ∀ path, ReflTransGen tree.Lists start path → tree.isFile path = false →
      tree.isRefused path = false

/-- Some file that is reached lists itself, directly or over other files.  A path without a
file lists nothing, so all files on the way are there. -/
def HasCircle (tree : FileTree) (start : AbsolutePath) : Prop :=
  ∃ path, ReflTransGen tree.Lists start path ∧ TransGen tree.Lists path path

/-- A link that goes from a file that is reached to one that it lists. -/
def IsReachedLink (tree : FileTree) (start : AbsolutePath)
    (link : AbsolutePath × AbsolutePath) : Prop :=
  ReflTransGen tree.Lists start link.1 ∧ tree.Lists link.1 link.2

variable {tree : FileTree}

/-- The options of an accepted file are those that it sets. -/
theorem IsAccepted.exists_read
    {path : AbsolutePath}
    (accepted : tree.IsAccepted path) :
    ∃ text entries,
      tree.read? path = some text ∧ Toml.read text = .ok entries ∧
        Options.read path.parent (.table entries) = .accepted (tree.written path) := by
  obtain ⟨text, entries, options, isText, isRead, isAccepted⟩ := accepted
  have hasEntries : tree.entries path = entries := by
    rw [FileTree.entries, isText, Option.bind_some, isRead]
    rfl
  refine ⟨text, entries, isText, isRead, ?_⟩
  rw [isAccepted, Options.eq_written_of_read isAccepted, written, hasEntries]

/-- What is listed in a sound tree is the start of a sound tree. -/
theorem IsSound.of_lists
    {start path : AbsolutePath}
    (sound : tree.IsSound start)
    (isListed : tree.Lists start path) :
    tree.IsSound path :=
  ⟨fun other leads => sound.accepted other (.head isListed leads),
    fun other leads => sound.allowed other (.head isListed leads)⟩

theorem IsSound.forall_listed
    {start : AbsolutePath}
    (sound : tree.IsSound start)
    (isFile : tree.isFile start = true) :
    ∀ path ∈ tree.listed start, tree.IsSound path :=
  fun _ isListed => sound.of_lists ⟨isFile, isListed⟩

/-- Where a circle is reached, it is reached from a listed file. -/
theorem HasCircle.exists_listed
    {start : AbsolutePath}
    (hasCircle : tree.HasCircle start) :
    ∃ path, tree.Lists start path ∧ tree.HasCircle path := by
  obtain ⟨path, leads, circle⟩ := hasCircle
  rcases ReflTransGen.cases_head leads with rfl | ⟨next, isListed, leadsOn⟩
  · obtain ⟨next, isListed, leadsBack⟩ := TransGen.head'_iff.mp circle
    exact ⟨next, isListed, start, leadsBack, circle⟩
  · exact ⟨next, isListed, path, leadsOn, circle⟩

/-!
## The order of visits
-/

/-- From paths one after another, files are visited depth first.  Each comes before the
files that it lists, again whenever it is listed, and a path without a file is passed over. -/
inductive Visits (tree : FileTree) : (paths order : List AbsolutePath) → Prop where
  | done : tree.Visits [] []
  | missing
      {path : AbsolutePath}
      {paths order : List AbsolutePath}
      (isMissing : tree.isFile path = false)
      (others : tree.Visits paths order) :
      tree.Visits (path :: paths) order
  | file
      {path : AbsolutePath}
      {paths below order : List AbsolutePath}
      (isFile : tree.isFile path = true)
      (ofListed : tree.Visits (tree.listed path) below)
      (others : tree.Visits paths order) :
      tree.Visits (path :: paths) (path :: (below ++ order))

namespace Visits

/-- There is no more than one order. -/
theorem unique
    {paths order other : List AbsolutePath}
    (visits : tree.Visits paths order)
    (visitsOther : tree.Visits paths other) :
    order = other := by
  induction visits generalizing other with
  | done =>
      cases visitsOther
      rfl
  | missing isMissing _ inductionHypothesis =>
      cases visitsOther with
      | missing _ others =>
          exact inductionHypothesis others
      | file isFile =>
          rw [isMissing] at isFile
          cases isFile
  | file isFile _ _ ofListed ofOthers =>
      cases visitsOther with
      | missing isMissing =>
          rw [isFile] at isMissing
          cases isMissing
      | file _ listed others =>
          rw [ofListed listed, ofOthers others]

/-- The files that are visited are those that are there and can be reached. -/
theorem mem_iff
    {paths order : List AbsolutePath}
    (visits : tree.Visits paths order)
    {path : AbsolutePath} :
    path ∈ order ↔
      tree.isFile path = true ∧ ∃ start ∈ paths, ReflTransGen tree.Lists start path := by
  induction visits with
  | done =>
      simp
  | @missing first paths order isMissing _ inductionHypothesis =>
      rw [inductionHypothesis, List.exists_mem_cons_iff]
      refine and_congr_right fun isFile => (or_iff_right ?_).symm
      intro leads
      rcases ReflTransGen.cases_head leads with rfl | ⟨_, isListed, -⟩
      · rw [isMissing] at isFile
        cases isFile
      · rw [isListed.1] at isMissing
        cases isMissing
  | @file first paths below order isFile _ _ ofListed ofOthers =>
      rw [List.mem_cons, List.mem_append, ofListed, ofOthers, List.exists_mem_cons_iff]
      constructor
      · rintro (rfl | ⟨isThere, start, isListed, leads⟩ | ⟨isThere, start, isStart, leads⟩)
        · exact ⟨isFile, .inl .refl⟩
        · exact ⟨isThere, .inl (.head ⟨isFile, isListed⟩ leads)⟩
        · exact ⟨isThere, .inr ⟨start, isStart, leads⟩⟩
      · rintro ⟨isThere, leads | ⟨start, isStart, leads⟩⟩
        · rcases ReflTransGen.cases_head leads with rfl | ⟨start, isListed, leads⟩
          · exact .inl rfl
          · exact .inr (.inl ⟨isThere, start, isListed.2, leads⟩)
        · exact .inr (.inr ⟨isThere, start, isStart, leads⟩)

/-- Visits do not end where a circle is reached. -/
theorem not_hasCircle
    {paths order : List AbsolutePath}
    (visits : tree.Visits paths order) :
    ∀ path ∈ paths, ¬ tree.HasCircle path := by
  induction visits with
  | done =>
      exact nofun
  | missing isMissing _ ofOthers =>
      refine List.forall_mem_cons.mpr ⟨fun hasCircle => ?_, ofOthers⟩
      obtain ⟨_, isListed, -⟩ := hasCircle.exists_listed
      rw [isListed.1] at isMissing
      cases isMissing
  | file _ _ _ ofListed ofOthers =>
      refine List.forall_mem_cons.mpr ⟨fun hasCircle => ?_, ofOthers⟩
      obtain ⟨next, isListed, nextHasCircle⟩ := hasCircle.exists_listed
      exact ofListed next isListed.2 nextHasCircle

end Visits

/-!
## Deciding what is reached
-/

/-- Whether a file is there and its options are accepted. -/
def checkAccepted (tree : FileTree) (path : AbsolutePath) : Bool :=
  match (tree.read? path).map Toml.read with
  | some (.ok entries) =>
      match Options.read path.parent (.table entries) with
      | .accepted _ => true
      | _ => false
  | _ => false

/-- Whether paths list no others. -/
def checkClosed (tree : FileTree) (paths : List AbsolutePath) : Bool :=
  paths.all fun path => ! tree.isFile path || (tree.listed path).all paths.contains

/-- The order of visits, if the fuel is enough to find it. -/
def findOrder (tree : FileTree) : (fuel : Nat) → (paths : List AbsolutePath) →
    Option (List AbsolutePath)
  | 0, _ => none
  | _ + 1, [] => some []
  | fuel + 1, path :: paths =>
      if tree.isFile path then do
        let below ← tree.findOrder fuel (tree.listed path)
        let order ← tree.findOrder fuel paths
        return path :: (below ++ order)
      else tree.findOrder fuel paths

theorem isAccepted_of_check
    {path : AbsolutePath}
    (checked : tree.checkAccepted path = true) :
    tree.IsAccepted path := by
  rw [checkAccepted] at checked
  split at checked
  case h_1 entries isRead =>
    obtain ⟨text, isText, ofText⟩ := Option.map_eq_some_iff.mp isRead
    split at checked
    case h_1 options accepted =>
      exact ⟨text, entries, options, isText, ofText, accepted⟩
    case h_2 =>
      cases checked
  case h_2 =>
    cases checked

/-- What is reached from a path is among paths that list no others. -/
theorem mem_of_checkClosed
    {paths : List AbsolutePath}
    {start path : AbsolutePath}
    (closed : tree.checkClosed paths = true)
    (isStart : start ∈ paths)
    (leads : ReflTransGen tree.Lists start path) :
    path ∈ paths := by
  induction leads with
  | refl =>
      exact isStart
  | @tail source target _ isListed inductionHypothesis =>
      have ofSource := List.all_eq_true.mp closed source inductionHypothesis
      rw [isListed.1, Bool.not_true, Bool.false_or] at ofSource
      exact List.contains_iff_mem.mp (List.all_eq_true.mp ofSource target isListed.2)

/-- What is reached is accepted if all files among paths that list no others are. -/
theorem isAccepted_of_checkClosed
    {paths : List AbsolutePath}
    {start : AbsolutePath}
    (closed : tree.checkClosed paths = true)
    (isStart : start ∈ paths)
    (accepted : (paths.all fun path => ! tree.isFile path || tree.checkAccepted path) = true) :
    ∀ path, ReflTransGen tree.Lists start path → tree.isFile path = true →
      tree.IsAccepted path := by
  intro path leads isFile
  have ofPath := List.all_eq_true.mp accepted path (mem_of_checkClosed closed isStart leads)
  rw [isFile, Bool.not_true, Bool.false_or] at ofPath
  exact isAccepted_of_check ofPath

theorem isSound_of_checkClosed
    {paths : List AbsolutePath}
    {start : AbsolutePath}
    (closed : tree.checkClosed paths = true)
    (isStart : start ∈ paths)
    (accepted : (paths.all fun path => ! tree.isFile path || tree.checkAccepted path) = true)
    (allowed : (paths.all fun path => tree.isFile path || ! tree.isRefused path) = true) :
    tree.IsSound start := by
  refine ⟨isAccepted_of_checkClosed closed isStart accepted, fun path leads isMissing => ?_⟩
  have ofPath := List.all_eq_true.mp allowed path (mem_of_checkClosed closed isStart leads)
  rw [isMissing, Bool.false_or, Bool.not_eq_true'] at ofPath
  exact ofPath

theorem visits_of_findOrder
    {fuel : Nat}
    {paths order : List AbsolutePath}
    (found : tree.findOrder fuel paths = some order) :
    tree.Visits paths order := by
  induction fuel generalizing paths order with
  | zero =>
      cases found
  | succ fuel inductionHypothesis =>
      cases paths with
      | nil =>
          cases found
          exact .done
      | cons path paths =>
          rw [findOrder] at found
          split at found
          case isTrue isFile =>
            simp only [Option.bind_eq_bind, Option.bind_eq_some_iff, Option.pure_def,
              Option.some.injEq] at found
            obtain ⟨below, ofListed, others, ofOthers, rfl⟩ := found
            exact .file isFile (inductionHypothesis ofListed) (inductionHypothesis ofOthers)
          case isFalse isMissing =>
            exact .missing (Bool.eq_false_iff.mpr isMissing) (inductionHypothesis found)

end FileTree

end ContractBindings
