import ContractBindings.Config.Options

namespace ContractBindings

/-!
# Trees of options

Options are handed out as tables below each other, in which the order of the keys does not
count.  On such trees merging, removing and taking over changes are defined for any depth, and
what is done to options, which have a fixed shape, is shown to be the same.

Main statements: `Options.tree_merge`, `Options.removal_remove` and
`Options.patch_changesNode`.
-/

/-- What stands under a key of a table, if anything does. -/
inductive OptionTree where
  | absent
  | value (node : Json.Node)
  | table (entries : Text → OptionTree)

namespace OptionTree

mutual

/-- The tree of a document. -/
def ofNode : Json.Node → OptionTree
  | .object members => .table (ofMembers members)
  | node => .value node

/-- What stands under a key of an object. -/
def ofMembers : List (Text × Json.Node) → Text → OptionTree
  | [], _ => .absent
  | (name, node) :: members, key => if key = name then ofNode node else ofMembers members key

end

/-- What is new, and the rest as it was.  Tables on both sides are merged. -/
def merge : (old new : OptionTree) → OptionTree
  | old, .absent => old
  | .table old, .table new => .table fun key => merge (old key) (new key)
  | _, new => new

/-- The tree without what a path of keys leads to. -/
def strip : OptionTree → List Text → OptionTree
  | _, [] => .absent
  | .table entries, key :: path =>
      .table fun other => if other = key then strip (entries key) path else entries other
  | tree, _ :: _ => tree

/-- The tree without what several paths lead to, one after another. -/
def stripAll (tree : OptionTree) (paths : List (List Text)) : OptionTree :=
  paths.foldl strip tree

/-- Why nothing can be removed at a path of keys.  Something has to be named, and a value
cannot be looked into.  A key that is not there is no reason. -/
def refusal? : OptionTree → List Text → Option Fault
  | _, [] => some .noElement
  | .table _, [_] => none
  | .table entries, key :: next :: path => refusal? (entries key) (next :: path)
  | .absent, _ :: _ => none
  | .value (.array _), [_] => some .wrongKind
  | .value _, _ :: _ => some .noMember

/-- Takes changes over: null removes what is there, tables on both sides go on below, and
everything else takes the place of what was there. -/
def patch : (old changes : OptionTree) → OptionTree
  | old, .absent => old
  | _, .value .null => .absent
  | .table old, .table changes => .table fun key => patch (old key) (changes key)
  | _, new => new

@[simp]
theorem merge_absent
    (old : OptionTree) :
    old.merge .absent = old := by
  cases old <;> rfl

@[simp]
theorem patch_absent
    (old : OptionTree) :
    old.patch .absent = old := by
  cases old <;> rfl

@[simp]
theorem strip_nil
    (tree : OptionTree) :
    tree.strip [] = .absent := by
  cases tree <;> rfl

@[simp]
theorem strip_absent
    (path : List Text) :
    absent.strip path = absent := by
  cases path <;> rfl

theorem patch_null
    (old : OptionTree) :
    old.patch (.value .null) = .absent := by
  cases old <;> rfl

theorem patch_value
    {node : Json.Node}
    (notNull : node ≠ .null)
    (old : OptionTree) :
    old.patch (.value node) = .value node := by
  cases node with
  | null =>
      exact absurd rfl notNull
  | bool | number | text | array | object =>
      cases old <;> rfl

theorem refusal?_absent
    (key : Text)
    (path : List Text) :
    absent.refusal? (key :: path) = none := by
  cases path <;> rfl

theorem refusal?_value
    (node : Json.Node)
    (key next : Text)
    (path : List Text) :
    (value node).refusal? (key :: next :: path) = some .noMember := by
  cases node <;> rfl

/-!
## Tables with two keys
-/

/-- A table with two keys, one or both of which may be missing. -/
def pair (first second : Text) (one two : OptionTree) : OptionTree :=
  .table fun key => if key = first then one else if key = second then two else .absent

variable {first second : Text} {one two other another : OptionTree}

/-- What is done to two tables with the same two keys is done under each of the keys. -/
theorem pair_of_each
    (combine : OptionTree → OptionTree → OptionTree)
    (ofAbsent : combine .absent .absent = .absent) :
    (OptionTree.table fun key =>
        combine (if key = first then one else if key = second then two else .absent)
          (if key = first then other else if key = second then another else .absent)) =
      pair first second (combine one other) (combine two another) := by
  refine congrArg table (funext fun key => ?_)
  by_cases isFirst : key = first
  · simp only [if_pos isFirst]
  · by_cases isSecond : key = second
    · simp only [if_neg isFirst, if_pos isSecond]
    · simp only [if_neg isFirst, if_neg isSecond, ofAbsent]

theorem merge_pair :
    (pair first second one two).merge (pair first second other another) =
      pair first second (one.merge other) (two.merge another) :=
  pair_of_each merge rfl

theorem patch_pair :
    (pair first second one two).patch (pair first second other another) =
      pair first second (one.patch other) (two.patch another) :=
  pair_of_each patch rfl

theorem strip_pair_first
    (path : List Text) :
    (pair first second one two).strip (first :: path) = pair first second (one.strip path) two := by
  refine congrArg table (funext fun key => ?_)
  by_cases isFirst : key = first
  · simp only [if_pos isFirst, if_true]
  · simp only [if_neg isFirst]

theorem strip_pair_second
    (differ : first ≠ second)
    (path : List Text) :
    (pair first second one two).strip (second :: path) =
      pair first second one (two.strip path) := by
  refine congrArg table (funext fun key => ?_)
  by_cases isSecond : key = second
  · simp only [isSecond, if_true, if_neg differ.symm]
  · simp only [if_neg isSecond]

theorem strip_pair_other
    {key : Text}
    (notFirst : key ≠ first)
    (notSecond : key ≠ second)
    (path : List Text) :
    (pair first second one two).strip (key :: path) = pair first second one two := by
  refine congrArg table (funext fun other => ?_)
  by_cases isKey : other = key
  · simp only [isKey, if_true, if_neg notFirst, if_neg notSecond, strip_absent]
  · simp only [if_neg isKey]

theorem refusal?_pair
    (key next : Text)
    (path : List Text) :
    (pair first second one two).refusal? (key :: next :: path) =
      (if key = first then one else if key = second then two else .absent).refusal?
        (next :: path) :=
  rfl

/-- An object with two members, one or both of which may be missing. -/
theorem ofNode_object_pair
    (differ : first ≠ second)
    (node? other? : Option Json.Node) :
    ofNode (.object ((node?.map fun node => (first, node)).toList ++
        (other?.map fun node => (second, node)).toList)) =
      pair first second (node?.elim .absent ofNode) (other?.elim .absent ofNode) := by
  refine congrArg table (funext fun key => ?_)
  cases node? with
  | none =>
      by_cases isFirst : key = first
      · cases other? <;> simp [ofMembers, isFirst, differ]
      · cases other? <;> simp [ofMembers, isFirst]
  | some node =>
      cases other? <;> simp [ofMembers]

end OptionTree

namespace GeneratorOptions

/-- The options of the generator that are set. -/
def tree (options : GeneratorOptions) : OptionTree :=
  .ofNode (Options.generatorNode options)

end GeneratorOptions

namespace Options

/-!
## Options as trees
-/

variable {options old new : Options}

/-- The options that are set. -/
def tree (options : Options) : OptionTree :=
  .ofNode options.toNode

theorem subconfigs_ne_generator :
    Text.ofString "subconfigs" ≠ "generator" := by
  decide

theorem output_ne_localSuffix :
    Text.ofString "output" ≠ "local_suffix" := by
  decide

theorem tree_generator
    (generator : GeneratorOptions) :
    generator.tree =
      .pair "output" "local_suffix" (generator.output.elim .absent (.value <| pathNode ·))
        (generator.localSuffix.elim .absent (.value <| .text ·)) := by
  have isPair := OptionTree.ofNode_object_pair output_ne_localSuffix
    (generator.output.map pathNode) (generator.localSuffix.map .text)
  rw [Option.map_map, Option.map_map] at isPair
  rw [GeneratorOptions.tree, generatorNode]
  refine isPair.trans ?_
  rcases generator with ⟨_ | path, _ | suffix⟩ <;> rfl

theorem tree_eq
    (options : Options) :
    options.tree =
      .pair "subconfigs" "generator" (options.subconfigs.elim .absent (.value <| pathsNode ·))
        (options.generator.elim .absent (·.tree)) := by
  have isPair := OptionTree.ofNode_object_pair subconfigs_ne_generator
    (options.subconfigs.map pathsNode) (options.generator.map generatorNode)
  rw [Option.map_map, Option.map_map] at isPair
  rw [tree, toNode]
  refine isPair.trans ?_
  rcases options with ⟨_ | paths, _ | generator⟩ <;> rfl

/-- Options that are set are merged, and so are the trees of all. -/
theorem elim_or
    (write : α → Json.Node)
    (old new : Option α) :
    (new.or old).elim .absent (OptionTree.value <| write ·) =
      (old.elim .absent (OptionTree.value <| write ·)).merge
        (new.elim .absent (OptionTree.value <| write ·)) := by
  cases new with
  | none =>
      exact (OptionTree.merge_absent _).symm
  | some a =>
      cases old <;> rfl

theorem tree_merge
    (old new : Options) :
    (old.merge new).tree = old.tree.merge new.tree := by
  rw [tree_eq, tree_eq, tree_eq, OptionTree.merge_pair, merge, elim_or]
  refine congrArg (OptionTree.pair _ _ _) ?_
  rcases old with ⟨_, _ | old⟩ <;> rcases new with ⟨_, _ | new⟩
  · rfl
  · rfl
  · exact (OptionTree.merge_absent _).symm
  · dsimp only [Option.elim]
    rw [tree_generator, tree_generator, tree_generator, OptionTree.merge_pair,
      GeneratorOptions.merge, elim_or, elim_or]

/-!
## Removing options
-/

/-- Removes what a path of keys leads to from a spot. -/
def removeFrom (options : Options) (spot : Spot) (path : List Text) : Except Fault Options := do
  let spot ← path.dropLast.foldlM (fun spot key => options.step key spot) spot
  match path.getLast? with
  | some key => options.removeAt key spot
  | .none => .error .noElement

theorem removeFrom_cons_cons
    (options : Options)
    (spot : Spot)
    (key next : Text)
    (path : List Text) :
    options.removeFrom spot (key :: next :: path) =
      options.step key spot >>= fun spot => options.removeFrom spot (next :: path) := by
  rw [removeFrom, List.dropLast_cons_cons, List.foldlM_cons, List.getLast?_cons_cons, bind_assoc]
  rfl

/-- What comes of removing what a path leads to in a tree: a refusal for the reason that the
tree gives, or what is expected. -/
inductive Removal (tree : OptionTree) (path : List Text) (expected : OptionTree) :
    Except Fault Options → Prop where
  | refused
      {fault : Fault}
      (isRefused : tree.refusal? path = some fault) :
      Removal tree path expected (.error fault)
  | removed
      {left : Options}
      (isAllowed : tree.refusal? path = .none)
      (isExpected : left.tree = expected) :
      Removal tree path expected (.ok left)

theorem removal_nowhere
    (options : Options)
    (key : Text)
    (path : List Text) :
    Removal .absent (key :: path) options.tree (options.removeFrom .nowhere (key :: path)) := by
  have isKept : options.removeFrom .nowhere (key :: path) = .ok options := by
    induction path generalizing key with
    | nil =>
        rfl
    | cons next path inductionHypothesis =>
        rw [removeFrom_cons_cons]
        exact inductionHypothesis next
  rw [isKept]
  exact .removed (OptionTree.refusal?_absent key path) rfl

/-- Nothing is removed from a value. -/
theorem removal_of_value
    {options : Options}
    {spot : Spot}
    {node : Json.Node}
    (isClosed : ∀ key, options.step key spot = .error .noMember)
    (isRefused :
      ∀ key, ∃ fault,
        options.removeAt key spot = .error fault ∧
          (OptionTree.value node).refusal? [key] = some fault)
    (expected : OptionTree)
    (key : Text)
    (path : List Text) :
    Removal (.value node) (key :: path) expected (options.removeFrom spot (key :: path)) := by
  cases path with
  | nil =>
      obtain ⟨fault, isFault, ofTree⟩ := isRefused key
      have isFrom : options.removeFrom spot [key] = options.removeAt key spot := rfl
      rw [isFrom, isFault]
      exact .refused ofTree
  | cons next path =>
      rw [removeFrom_cons_cons, isClosed]
      exact .refused (OptionTree.refusal?_value node key next path)

/-- Below a table it is decided further down what comes of removing something. -/
theorem Removal.below
    {tree below expected other : OptionTree}
    {path rest : List Text}
    {result : Except Fault Options}
    (removal : Removal below rest expected result)
    (sameRefusal : tree.refusal? path = below.refusal? rest)
    (sameExpected : other = expected) :
    Removal tree path other result := by
  cases removal with
  | refused isRefused =>
      exact .refused (sameRefusal.trans isRefused)
  | removed isAllowed isExpected =>
      exact .removed (sameRefusal.trans isAllowed) (isExpected.trans sameExpected.symm)

/-- The options of the generator without one of them. -/
theorem tree_generator_without
    (generator : GeneratorOptions)
    (key : Text) :
    (if key = "output" then { generator with output := .none }
      else if key = "local_suffix" then { generator with localSuffix := .none }
      else generator).tree = generator.tree.strip [key] := by
  by_cases isOutput : key = "output"
  · rw [if_pos isOutput, isOutput, tree_generator, tree_generator, OptionTree.strip_pair_first,
      OptionTree.strip_nil]
    rfl
  by_cases isSuffix : key = "local_suffix"
  · rw [if_neg isOutput, if_pos isSuffix, isSuffix, tree_generator, tree_generator,
      OptionTree.strip_pair_second output_ne_localSuffix, OptionTree.strip_nil]
    rfl
  · rw [if_neg isOutput, if_neg isSuffix, tree_generator,
      OptionTree.strip_pair_other isOutput isSuffix]

theorem removal_generator
    (subconfigs : Option (List AbsolutePath))
    (generator : GeneratorOptions)
    (key : Text)
    (path : List Text) :
    Removal generator.tree (key :: path)
      (.pair "subconfigs" "generator" (subconfigs.elim .absent (.value <| pathsNode ·))
        (generator.tree.strip (key :: path)))
      (removeFrom ⟨subconfigs, some generator⟩ .generator (key :: path)) := by
  cases path with
  | nil =>
      refine .removed (by rw [tree_generator]; rfl) ?_
      rw [tree_eq, ← tree_generator_without]
      rfl
  | cons next path =>
      have isTree := tree_eq ⟨subconfigs, some generator⟩
      dsimp only [Option.elim_some] at isTree
      have ofNowhere := removal_nowhere ⟨subconfigs, some generator⟩ next path
      rw [isTree] at ofNowhere
      rw [removeFrom_cons_cons, tree_generator] at *
      by_cases isOutput : key = "output"
      · subst isOutput
        rw [OptionTree.strip_pair_first]
        rcases generator with ⟨_ | output, suffix?⟩
        · exact ofNowhere.below rfl rfl
        · exact (removal_of_value (fun _ => rfl) (fun _ => ⟨_, rfl, rfl⟩) _ next path).below rfl rfl
      by_cases isSuffix : key = "local_suffix"
      · subst isSuffix
        rw [OptionTree.strip_pair_second output_ne_localSuffix]
        rcases generator with ⟨output?, _ | suffix⟩
        · exact ofNowhere.below rfl rfl
        · exact (removal_of_value (fun _ => rfl) (fun _ => ⟨_, rfl, rfl⟩) _ next path).below rfl rfl
      · have isNowhere : step ⟨subconfigs, some generator⟩ key .generator = .ok .nowhere := by
          simp [step, isOutput, isSuffix]
        rw [isNowhere, OptionTree.strip_pair_other isOutput isSuffix]
        refine ofNowhere.below ?_ rfl
        rw [OptionTree.refusal?_pair, if_neg isOutput, if_neg isSuffix]

/-- Options are refused to be removed, or are removed, as the tree of all tells. -/
theorem removal_remove
    (options : Options)
    (path : List Text) :
    Removal options.tree path (options.tree.strip path) (options.remove path) := by
  have isFrom : options.remove path = options.removeFrom .all path := rfl
  have ofTree := options.tree_eq
  obtain ⟨subconfigs?, generator?⟩ := options
  rw [isFrom]
  rcases path with _ | ⟨key, path⟩
  · exact .refused rfl
  by_cases isGenerator : key = "generator"
  · subst isGenerator
    rw [tree_eq, OptionTree.strip_pair_second subconfigs_ne_generator]
    rcases path with _ | ⟨next, path⟩
    · exact .removed rfl ((tree_eq _).trans (by rw [OptionTree.strip_nil]; rfl))
    rw [removeFrom_cons_cons]
    cases generator? with
    | none =>
        exact (removal_nowhere _ next path).below rfl ofTree.symm
    | some generator =>
        exact (removal_generator _ generator next path).below rfl rfl
  by_cases isSubconfigs : key = "subconfigs"
  · subst isSubconfigs
    rw [tree_eq, OptionTree.strip_pair_first]
    rcases path with _ | ⟨next, path⟩
    · exact .removed rfl ((tree_eq _).trans (by rw [OptionTree.strip_nil]; rfl))
    rw [removeFrom_cons_cons]
    cases subconfigs? with
    | none =>
        exact (removal_nowhere _ next path).below rfl ofTree.symm
    | some paths =>
        exact (removal_of_value (fun _ => rfl) (fun _ => ⟨_, rfl, rfl⟩) _ next path).below rfl rfl
  · have isNowhere : step ⟨subconfigs?, generator?⟩ key .all = .ok .nowhere := by
      simp [step, isGenerator, isSubconfigs]
    have isKept : removeAt ⟨subconfigs?, generator?⟩ key .all = .ok ⟨subconfigs?, generator?⟩ := by
      simp [removeAt, isGenerator, isSubconfigs]
    rw [tree_eq, OptionTree.strip_pair_other isSubconfigs isGenerator]
    rcases path with _ | ⟨next, path⟩
    · have isRemoved : removeFrom ⟨subconfigs?, generator?⟩ .all [key] = _ := isKept
      rw [isRemoved]
      exact .removed rfl ofTree
    · rw [removeFrom_cons_cons, isNowhere]
      refine (removal_nowhere _ next path).below ?_ ofTree.symm
      rw [OptionTree.refusal?_pair, if_neg isSubconfigs, if_neg isGenerator]

/-- Options that were all removed are gone from the tree. -/
theorem tree_of_removeAll
    {left : Options}
    {paths : List (List Text)}
    (areRemoved : options.removeAll paths = (left, .none)) :
    left.tree = options.tree.stripAll paths := by
  induction paths generalizing options with
  | nil =>
      cases areRemoved
      rfl
  | cons path paths inductionHypothesis =>
      have removal := options.removal_remove path
      rw [removeAll] at areRemoved
      split at areRemoved
      case h_1 next isRemoved =>
        rw [isRemoved] at removal
        obtain _ | ⟨-, isNext⟩ := removal
        rw [inductionHypothesis areRemoved, isNext]
        rfl
      case h_2 =>
        cases areRemoved

/-- Otherwise those are gone that come before the first path at which nothing can be removed. -/
theorem exists_refusal_of_removeAll
    {left : Options}
    {paths : List (List Text)}
    {fault : Fault}
    (isRefused : options.removeAll paths = (left, some fault)) :
    ∃ done path rest,
      paths = done ++ path :: rest ∧ left.tree = options.tree.stripAll done ∧
        left.tree.refusal? path = some fault := by
  induction paths generalizing options with
  | nil =>
      cases isRefused
  | cons path paths inductionHypothesis =>
      have removal := options.removal_remove path
      rw [removeAll] at isRefused
      split at isRefused
      case h_1 next isRemoved =>
        rw [isRemoved] at removal
        obtain _ | ⟨-, isNext⟩ := removal
        obtain ⟨done, refused, rest, rfl, isLeft, ofTree⟩ := inductionHypothesis isRefused
        refine ⟨path :: done, refused, rest, rfl, ?_, ofTree⟩
        rw [isLeft, isNext]
        rfl
      case h_2 isFault =>
        rw [isFault] at removal
        cases isRefused
        obtain ⟨ofTree⟩ := removal
        exact ⟨[], path, paths, rfl, rfl, ofTree⟩

/-!
## Changes of options
-/

/-- What a document of changes says of an option, where null stands for a removed one. -/
def Change.node? (node : α → Json.Node) : Change α → Option Json.Node
  | .kept => .none
  | .removed => some .null
  | .set a => some (node a)

/-- What a document of changes says of the options of the generator. -/
def GroupChange.node? : GroupChange → Option Json.Node
  | .kept => .none
  | .removed => some .null
  | .added options => some (generatorNode options)
  | .changed changes =>
      some (.object
        (changeMembers "output" pathNode changes.output ++
          changeMembers "local_suffix" .text changes.localSuffix))

theorem changeMembers_eq
    (name : Text)
    (node : α → Json.Node)
    (change : Change α) :
    changeMembers name node change =
      ((change.node? node).map fun node => (name, node)).toList := by
  cases change <;> rfl

theorem groupMembers_eq
    (name : Text)
    (change : GroupChange) :
    groupMembers name change = (change.node?.map fun node => (name, node)).toList := by
  cases change <;> rfl

/-- An option changes to what it is afterwards. -/
theorem patch_between
    [DecidableEq α]
    (write : α → Json.Node)
    (isValue : ∀ a, OptionTree.ofNode (write a) = .value (write a))
    (notNull : ∀ a, write a ≠ .null)
    (old new : Option α) :
    (old.elim .absent (OptionTree.value <| write ·)).patch
        (((Change.between old new).node? write).elim .absent OptionTree.ofNode) =
      new.elim .absent (OptionTree.value <| write ·) := by
  cases old with
  | none =>
      cases new with
      | none =>
          rfl
      | some b =>
          refine (congrArg (OptionTree.patch _) (isValue b)).trans ?_
          exact OptionTree.patch_value (notNull b) _
  | some a =>
      cases new with
      | none =>
          exact OptionTree.patch_null _
      | some b =>
          rw [Change.between]
          split
          case isTrue same =>
            rw [same]
            exact OptionTree.patch_absent _
          case isFalse =>
            refine (congrArg (OptionTree.patch _) (isValue b)).trans ?_
            exact OptionTree.patch_value (notNull b) _

theorem between_eq_kept_iff
    [DecidableEq α]
    {old new : Option α} :
    Change.between old new = .kept ↔ old = new := by
  cases old <;> cases new <;> simp [Change.between]

/-- So do the options of the generator. -/
theorem patch_generatorChanges
    (old new : Option GeneratorOptions) :
    (old.elim .absent (·.tree)).patch
        ((generatorChanges old new).node?.elim .absent OptionTree.ofNode) =
      new.elim .absent (·.tree) := by
  cases old with
  | none =>
      cases new with
      | none =>
          rfl
      | some new =>
          rfl
  | some old =>
      cases new with
      | none =>
          exact OptionTree.patch_null _
      | some new =>
          rw [generatorChanges]
          split
          case isTrue areKept =>
            simp only [GeneratorChanges.mk.injEq, between_eq_kept_iff] at areKept
            obtain ⟨sameOutput, sameSuffix⟩ := areKept
            refine (OptionTree.patch_absent _).trans (congrArg GeneratorOptions.tree ?_)
            rw [GeneratorOptions.mk.injEq]
            exact ⟨sameOutput, sameSuffix⟩
          case isFalse =>
            have isPair := OptionTree.ofNode_object_pair output_ne_localSuffix
              ((Change.between old.output new.output).node? pathNode)
              ((Change.between old.localSuffix new.localSuffix).node? .text)
            rw [← changeMembers_eq, ← changeMembers_eq] at isPair
            refine (congrArg (OptionTree.patch _) isPair).trans ?_
            rw [Option.elim_some, Option.elim_some, tree_generator, tree_generator,
              OptionTree.patch_pair, patch_between pathNode (fun _ => rfl) (by simp [pathNode]),
              patch_between Json.Node.text (fun _ => rfl) (by simp)]

theorem generatorChanges_eq_kept_iff
    {old new : Option GeneratorOptions} :
    generatorChanges old new = .kept ↔ old = new := by
  cases old with
  | none =>
      cases new <;> simp [generatorChanges]
  | some old =>
      cases new with
      | none =>
          simp [generatorChanges]
      | some new =>
          obtain ⟨output, suffix⟩ := old
          obtain ⟨newOutput, newSuffix⟩ := new
          simp [generatorChanges, between_eq_kept_iff]

/-- What changed turns the old options into the new ones. -/
theorem patch_changesNode
    (old new : Options) :
    old.tree.patch (.ofNode (changesNode (changes old new))) = new.tree := by
  have isPair := OptionTree.ofNode_object_pair subconfigs_ne_generator
    ((Change.between old.subconfigs new.subconfigs).node? pathsNode)
    (generatorChanges old.generator new.generator).node?
  rw [← changeMembers_eq, ← groupMembers_eq] at isPair
  rw [changesNode, changes]
  dsimp only
  rw [isPair, tree_eq, tree_eq, OptionTree.patch_pair,
    patch_between pathsNode (fun _ => rfl) (by simp [pathsNode]), patch_generatorChanges]

/-- Nothing is said to have changed exactly if nothing has. -/
theorem changesNode_eq_empty_iff
    {old new : Options} :
    changesNode (changes old new) = .object [] ↔ new = old := by
  have ofChange : ∀ {α : Type} {name : Text} {node : α → Json.Node} {change : Change α},
      changeMembers name node change = [] ↔ change = .kept := by
    intro _ _ _ change
    cases change <;> simp [changeMembers]
  have ofGroup : ∀ {name : Text} {change : GroupChange},
      groupMembers name change = [] ↔ change = .kept := by
    intro _ change
    cases change <;> simp [groupMembers]
  obtain ⟨subconfigs, generator⟩ := old
  obtain ⟨newSubconfigs, newGenerator⟩ := new
  rw [changesNode, changes, Json.Node.object.injEq, List.append_eq_nil_iff, ofChange, ofGroup,
    between_eq_kept_iff, generatorChanges_eq_kept_iff, Options.mk.injEq]
  exact and_congr eq_comm eq_comm

end Options

end ContractBindings
