import ContractBindings.Proofs.RecordNames
import ContractBindings.Proofs.TypeTrees

namespace ContractBindings

/-!
# Functions that are not bound

A binder takes the names of a function before it hashes its signature, so that a function whose
signature has no hash leaves its names behind.  The types in a signature can always be hashed,
so that it is the name which cannot, and then neither can the names that are left behind.
These are no names that another function would get, unless the suffix cannot be encoded
either.

Main statement: what a binder makes of the functions that it binds is what it makes of them
without the others, if the suffix can be encoded or all names can.
-/

namespace CodePoint

theorem isSurrogate_of_isTypePart
    {c : CodePoint}
    (isPart : c.isTypePart = true) :
    c.isSurrogate = false := by
  simp only [isTypePart, Bool.or_eq_true, decide_eq_true_eq] at isPart
  rcases isPart with (((isLetter | isDigit) | rfl) | rfl) | rfl
  · have isWord : c.isAsciiWord = true := by
      simp [isAsciiWord, isLetter]
    exact (isUnmarked_iff.mp (isUnmarked_of_isAsciiWord isWord)).2.2
  · exact (isUnmarked_iff.mp (isUnmarked_of_isDecimalDigit isDigit)).2.2
  all_goals decide

end CodePoint

namespace Text

theorem isScalar_of_isTypePart
    {t : Text}
    (areParts : ∀ c ∈ t, c.isTypePart = true) :
    isScalar t = true :=
  List.all_eq_true.mpr fun c member => by
    rw [CodePoint.isSurrogate_of_isTypePart (areParts c member)]
    rfl

/-- To replace a code point that can be encoded by another one does not matter to the rest. -/
theorem isScalar_replace
    {old new : CodePoint}
    (oldIsScalar : old.isSurrogate = false)
    (newIsScalar : new.isSurrogate = false)
    (t : Text) :
    isScalar (replace t old new) = isScalar t := by
  rw [isScalar, replace, List.all_map]
  refine congrArg t.all (funext fun c => ?_)
  by_cases isOld : c = old
  · simp [isOld, oldIsScalar, newIsScalar]
  · simp [isOld]

end Text

namespace TypeTree

/-- The types of accepted parameters can be encoded. -/
theorem IsSound.isScalar_write
    {tree : TypeTree}
    (sound : tree.IsSound) :
    Text.isScalar tree.write = true := by
  induction sound with
  | leaf notEmpty areParts =>
      exact Text.isScalar_of_isTypePart areParts
  | tuple areSound areParts inductionHypothesis =>
      have ofComponents : Text.isScalar (Text.join "," (writeAll _)) = true :=
        Text.isScalar_join (by decide) fun part isPart => by
          rw [writeAll_eq_map] at isPart
          obtain ⟨component, member, rfl⟩ := List.mem_map.mp isPart
          exact inductionHypothesis component member
      rw [write, Text.isScalar_append, Text.isScalar_append, Text.isScalar_append, ofComponents,
        Text.isScalar_of_isTypePart areParts]
      rfl

end TypeTree

/-- Whether a signature can be encoded is up to the name, if the types can be. -/
theorem isScalar_signatureOf
    {types : List Text}
    (areScalar : ∀ type ∈ types, Text.isScalar type = true)
    (name : Text) :
    Text.isScalar (signatureOf name types) = Text.isScalar name := by
  have ofTypes : Text.isScalar (Text.join "," types) = true :=
    Text.isScalar_join (by decide) areScalar
  rw [signatureOf, Text.isScalar_append, Text.isScalar_append, Text.isScalar_append, ofTypes,
    Bool.and_true]
  exact (Bool.and_true _).trans (Bool.and_true _)

namespace Names

/-- The base of a name can be encoded exactly if the name can be. -/
theorem isScalar_underscored
    (name : Text)
    (count : Nat) :
    Text.isScalar (Text.replace name '$' '_' ++ underscores count) = Text.isScalar name := by
  have ofUnderscores : Text.isScalar (underscores count) = true :=
    List.all_eq_true.mpr fun c member => by
      rw [List.eq_of_mem_replicate member]
      decide
  rw [Text.isScalar_append, Text.isScalar_replace (by decide) (by decide), ofUnderscores,
    Bool.and_true]

/-- Only whether a name is taken counts for it. -/
theorem isAvailable_congr
    {taken others : List Text}
    {name : Text}
    (same : name ∈ taken ↔ name ∈ others) :
    IsAvailable taken name ↔ IsAvailable others name :=
  ⟨fun ⟨notReserved, notMember, notTaken, notKeyword, notDunder⟩ =>
      ⟨notReserved, notMember, fun isTaken => notTaken (same.mpr isTaken), notKeyword, notDunder⟩,
    fun ⟨notReserved, notMember, notTaken, notKeyword, notDunder⟩ =>
      ⟨notReserved, notMember, fun isTaken => notTaken (same.mp isTaken), notKeyword, notDunder⟩⟩

/-- Two lists of taken names give a function the same name if they agree on all that are
tried for it. -/
theorem methodName?_congr
    {suffix name : Text}
    {taken others : List Text}
    (sameBases :
      ∀ count,
        let base := Text.replace name '$' '_' ++ underscores count
        (base ∈ taken ↔ base ∈ others) ∧ (base ++ suffix ∈ taken ↔ base ++ suffix ∈ others)) :
    methodName? suffix taken name = methodName? suffix others name := by
  have sameBase : ∀ count,
      IsBase suffix taken (Text.replace name '$' '_' ++ underscores count) ↔
        IsBase suffix others (Text.replace name '$' '_' ++ underscores count) := by
    intro count
    obtain ⟨sameAlone, sameSuffixed⟩ := sameBases count
    exact ⟨fun ⟨alone, suffixed⟩ => ⟨(isAvailable_congr sameAlone).mp alone,
        (isAvailable_congr sameSuffixed).mp suffixed⟩,
      fun ⟨alone, suffixed⟩ => ⟨(isAvailable_congr sameAlone).mpr alone,
        (isAvailable_congr sameSuffixed).mpr suffixed⟩⟩
  refine Option.ext fun base => ?_
  rw [methodName?_eq_some_iff, methodName?_eq_some_iff]
  constructor
  · rintro ⟨count, rfl, isBase, before⟩
    exact ⟨count, rfl, (sameBase count).mp isBase,
      fun fewer isFewer => mt (sameBase fewer).mpr (before fewer isFewer)⟩
  · rintro ⟨count, rfl, isBase, before⟩
    exact ⟨count, rfl, (sameBase count).mpr isBase,
      fun fewer isFewer => mt (sameBase fewer).mp (before fewer isFewer)⟩

end Names

namespace FunctionBinder

/-!
## One function
-/

/-- A function with an outline is signed with types that can be encoded. -/
theorem isScalar_signature_of_outline
    {place : Place}
    {function : FunctionEntry}
    {outlined : Outline}
    (isOutline : outline place function = .ok outlined) :
    Text.isScalar outlined.signature = Text.isScalar function.name := by
  obtain ⟨types, names, expressions, outlines⟩ := outlines_of_outline isOutline
  have areSigned : ∀ input ∈ function.inputs, input.IsSigned := by
    intro input member
    obtain ⟨type, mapped⟩ := exists_of_mapM outlines.typed member
    exact Parameter.IsAccepted.isSigned ⟨_, _, type, mapped⟩
  have canonical := outlines.canonical
  rw [Parameter.canonicalTypes_of_isSigned areSigned, TypeTree.writeAll_eq_map] at canonical
  cases canonical
  rw [outlines.signature]
  refine isScalar_signatureOf (fun type isType => ?_) function.name
  obtain ⟨tree, isTree, rfl⟩ := List.mem_map.mp isType
  obtain ⟨input, member, rfl⟩ := List.mem_map.mp isTree
  exact (areSigned input member).1.isScalar_write

/-- A function with an outline has a hash exactly if its name can be encoded. -/
theorem isScalar_name_iff
    {place : Place}
    {function : FunctionEntry}
    {outlined : Outline}
    (isOutline : outline place function = .ok outlined) :
    Text.isScalar function.name = true ↔
      ∃ selector, ContractBindings.selector outlined.signature = .ok selector := by
  rw [ContractBindings.selector, hashText, isScalar_signature_of_outline isOutline]
  cases Text.isScalar function.name with
  | true =>
      exact ⟨fun _ => ⟨_, rfl⟩, fun _ => rfl⟩
  | false =>
      constructor
      · intro isScalar
        cases isScalar
      · rintro ⟨selector, hashed⟩
        cases hashed

/-!
## Functions one after another
-/

/-- What comes of functions that are bound one after another. -/
def attempts : FunctionBinder → List FunctionEntry →
    List (FunctionEntry × Except BindingFailure FunctionBinding)
  | _, [] => []
  | binder, function :: functions =>
      (function, (binder.bind function).1) :: attempts (binder.bind function).2.1 functions

/-- The functions that were bound, with their bindings. -/
def successes (results : List (FunctionEntry × Except BindingFailure FunctionBinding)) :
    List (FunctionEntry × FunctionBinding) :=
  results.filterMap fun (function, result) => result.toOption.map (function, ·)

/-- A binder after the same functions as another one, but for some that were not bound.  What
these have taken cannot be encoded, which the suffix can be then. -/
structure Skips (fresh binder : FunctionBinder) : Prop where
  contract : fresh.contract = binder.contract
  suffix : fresh.suffix = binder.suffix
  kept : ∀ name ∈ fresh.taken, name ∈ binder.taken
  others : ∀ name ∈ binder.taken, name ∉ fresh.taken →
    Text.isScalar name = false ∧ Text.isScalar binder.suffix = true

namespace Skips

theorem refl
    (binder : FunctionBinder) :
    Skips binder binder where
  contract := rfl
  suffix := rfl
  kept := fun _ isTaken => isTaken
  others := fun _ isTaken notTaken => absurd isTaken notTaken

/-- A function whose name can be encoded is called the same. -/
theorem methodName?_eq
    {fresh binder : FunctionBinder}
    (skips : Skips fresh binder)
    {name : Text}
    (isScalar : Text.isScalar name = true) :
    Names.methodName? fresh.suffix fresh.taken name =
      Names.methodName? binder.suffix binder.taken name := by
  rw [skips.suffix]
  refine Names.methodName?_congr fun count => ?_
  have baseIsScalar := (Names.isScalar_underscored name count).trans isScalar
  constructor
  · refine ⟨skips.kept _, fun isTaken => by_contra fun notTaken => ?_⟩
    rw [(skips.others _ isTaken notTaken).1] at baseIsScalar
    cases baseIsScalar
  · refine ⟨skips.kept _, fun isTaken => by_contra fun notTaken => ?_⟩
    obtain ⟨notScalar, suffixIsScalar⟩ := skips.others _ isTaken notTaken
    rw [Text.isScalar_append, baseIsScalar, suffixIsScalar] at notScalar
    cases notScalar

/-- Both take the same base. -/
theorem taking
    {fresh binder : FunctionBinder}
    (skips : Skips fresh binder)
    (base : Text) :
    Skips (fresh.taking base) (binder.taking base) := by
  obtain ⟨contract, suffix, kept, others⟩ := skips
  refine ⟨contract, suffix, fun name isTaken => ?_, fun name isTaken notTaken => ?_⟩
  · simp only [FunctionBinder.taking, List.mem_cons, suffix] at isTaken ⊢
    exact isTaken.imp_right (Or.imp_right (kept name))
  · simp only [FunctionBinder.taking, List.mem_cons, suffix, not_or] at isTaken notTaken ⊢
    obtain ⟨notBase, notSuffixed, notTaken⟩ := notTaken
    exact others name ((isTaken.resolve_left notBase).resolve_left notSuffixed) notTaken

/-- The base of a name that cannot be encoded may be taken in addition. -/
theorem taking_of_found
    {fresh binder : FunctionBinder}
    (skips : Skips fresh binder)
    (suffixIsScalar : Text.isScalar binder.suffix = true)
    {name base : Text}
    (notScalar : Text.isScalar name = false)
    (found : Names.methodName? binder.suffix binder.taken name = some base) :
    Skips fresh (binder.taking base) := by
  obtain ⟨count, isUnderscored, -, -⟩ := Names.methodName?_eq_some_iff.mp found
  have baseNotScalar : Text.isScalar base = false := by
    rw [isUnderscored, Names.isScalar_underscored, notScalar]
  obtain ⟨contract, suffix, kept, others⟩ := skips
  refine ⟨contract, suffix, fun name isTaken => ?_, fun name isTaken notTaken => ?_⟩
  · exact List.mem_cons_of_mem _ (List.mem_cons_of_mem _ (kept name isTaken))
  · simp only [FunctionBinder.taking, List.mem_cons] at isTaken
    rcases isTaken with rfl | rfl | isTaken
    · exact ⟨baseNotScalar, suffixIsScalar⟩
    · rw [Text.isScalar_append, baseNotScalar]
      exact ⟨rfl, suffixIsScalar⟩
    · exact others name isTaken notTaken

/-- A binder binds the functions that another one has bound as that one did, if it skips only
functions that were not bound. -/
theorem attempts_successes
    {fresh binder : FunctionBinder}
    (skips : Skips fresh binder)
    {functions : List FunctionEntry}
    (encodable :
      Text.isScalar binder.suffix = true ∨
        ∀ function ∈ functions, Text.isScalar function.name = true) :
    fresh.attempts ((successes (binder.attempts functions)).map Prod.fst) =
      (successes (binder.attempts functions)).map fun (function, binding) =>
        (function, .ok binding) := by
  induction functions generalizing fresh binder with
  | nil =>
      rfl
  | cons function functions inductionHypothesis =>
      -- A function that is not bound is one of the binder alone, any other is one of both.
      have attempt := attempt_bind binder function
      have encodableLater : Text.isScalar binder.suffix = true ∨
          ∀ function ∈ functions, Text.isScalar function.name = true :=
        encodable.imp_right fun each => (List.forall_mem_cons.mp each).2
      rw [attempts]
      generalize binder.bind function = outcome at attempt ⊢
      cases attempt with
      | refused | nameless =>
          exact inductionHypothesis skips encodableLater
      | @unhashed outlined base fault isOutline found notHashed =>
          have notScalar : Text.isScalar function.name = false := by
            refine eq_false_of_ne_true fun isScalar => ?_
            obtain ⟨selector, hashed⟩ := (isScalar_name_iff isOutline).mp isScalar
            rw [notHashed] at hashed
            cases hashed
          have suffixIsScalar : Text.isScalar binder.suffix = true := by
            refine encodable.resolve_right fun each => ?_
            rw [(List.forall_mem_cons.mp each).1] at notScalar
            cases notScalar
          exact inductionHypothesis (skips.taking_of_found suffixIsScalar notScalar found)
            encodableLater
      | @bound outlined base selector isOutline found hashed =>
          have isScalar := (isScalar_name_iff isOutline).mpr ⟨selector, hashed⟩
          have sameOutline : outline ⟨fresh.contract, function.name⟩ function = .ok outlined :=
            skips.contract ▸ isOutline
          have sameName := (skips.methodName?_eq isScalar).trans found
          have sameBinding :
              fresh.bindingOf function outlined base selector =
                binder.bindingOf function outlined base selector := by
            rw [bindingOf, bindingOf, skips.suffix]
          have later := inductionHypothesis (skips.taking base) encodableLater
          simp only [successes, List.filterMap_cons, Except.toOption, Option.map_some,
            List.map_cons] at later ⊢
          rw [attempts, bind_of_hashed sameOutline sameName hashed, sameBinding, later]

end Skips

/-- The functions that a binder binds are bound in the same way if the others are left out. -/
theorem attempts_of_successes
    {contract suffix : Text}
    {binder : FunctionBinder}
    (started : start contract suffix = .ok binder)
    {functions : List FunctionEntry}
    (encodable :
      Text.isScalar suffix = true ∨ ∀ function ∈ functions, Text.isScalar function.name = true) :
    binder.attempts ((successes (binder.attempts functions)).map Prod.fst) =
      (successes (binder.attempts functions)).map fun (function, binding) =>
        (function, .ok binding) := by
  have sameSuffix : binder.suffix = suffix := by
    rw [start] at started
    split at started
    · cases started
    · cases started
      rfl
  exact (Skips.refl binder).attempts_successes (sameSuffix ▸ encodable)

/-- The names of the local methods of the functions that are bound. -/
def localNames (results : List (FunctionEntry × Except BindingFailure FunctionBinding)) :
    List Text :=
  (successes results).map (·.2.localMethod)

/-- A function that takes fractions. -/
def fractionFunction (name : Text) : FunctionEntry :=
  { plainFunction name false with inputs := [⟨"x", "fixed128x18", none, none⟩] }

/-- A function with two results of which none has a name. -/
def namelessFunction (name : Text) : FunctionEntry :=
  { plainFunction name false with
    outputs := [⟨"", "uint8", none, none⟩, ⟨"", "uint8", none, none⟩] }

/-- A letter with a lone surrogate behind it. -/
def surrogateName : Text :=
  "f" ++ [CodePoint.ofNat 0xD800]

/-- Functions of one name, with some between them that are not bound. -/
def interleavedFunctions : List FunctionEntry :=
  [plainFunction "f" false, fractionFunction "f", plainFunction surrogateName false,
    plainFunction "f" true, namelessFunction "f", plainFunction "f_" false]

theorem attempts_of_successes_interleaved :
    ∃ binder,
      start "C" "_" = .ok binder ∧ Text.isScalar "_" = true ∧
        localNames (binder.attempts interleavedFunctions) = ["f_", "f___", "f_____"] ∧
          binder.attempts ((successes (binder.attempts interleavedFunctions)).map Prod.fst) =
            (successes (binder.attempts interleavedFunctions)).map fun (function, binding) =>
              (function, .ok binding) := by
  have started : start "C" "_" = .ok ⟨"C", "_", []⟩ := by
    rfl
  have isScalar : Text.isScalar "_" = true := by
    decide
  exact ⟨_, started, isScalar, by decide +kernel, attempts_of_successes started (Or.inl isScalar)⟩

/-- The first function has no signature that can be hashed. Its name is the one that the second
function has with the suffix behind it. -/
def surrogateFunctions : List FunctionEntry :=
  [plainFunction surrogateName false, plainFunction "f" false]

/-- With a lone surrogate as the suffix the name of the second function is taken, although the
first one is not bound. -/
theorem attempts_ne_of_surrogates :
    ∃ binder,
      start "C" [CodePoint.ofNat 0xD800] = .ok binder ∧
        (successes (binder.attempts surrogateFunctions)).map Prod.fst =
            [plainFunction "f" false] ∧
          binder.attempts [plainFunction "f" false] ≠
            (successes (binder.attempts surrogateFunctions)).map fun (function, binding) =>
              (function, .ok binding) := by
  refine ⟨_, rfl, by rfl, fun same => ?_⟩
  refine absurd (congrArg localNames same) ?_
  decide +kernel

end FunctionBinder

end ContractBindings
