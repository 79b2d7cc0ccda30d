import ContractBindings.Codec.Parameters
import ContractBindings.Proofs.DeclaredValues
import ContractBindings.Proofs.DescribedTypes
import ContractBindings.Typing.Mapping

namespace ContractBindings

/-!
# Limits of the reader

Valid types whose text is not read to its end: a size has too many digits, too
many tuples stand in each other, or too many arrays.  Values of such types are
refused before they are encoded.
-/

namespace TypeForm

/-- More opening parentheses than there is room for are refused. -/
theorem readForm_tooNested
    {fuel room : Nat}
    (enough : 2 * room + 1 ≤ fuel)
    (rest : Text) :
    readForm fuel room (List.replicate (room + 1) (CodePoint.ofChar '(') ++ rest) =
      .error .tooNested := by
  induction room generalizing fuel with
  | zero =>
      obtain ⟨fuel, rfl⟩ : ∃ less, fuel = less + 1 := ⟨fuel - 1, by omega⟩
      have opened : Text.dropStart? (List.replicate (0 + 1) (CodePoint.ofChar '(') ++ rest) "(" =
          some rest :=
        Text.dropStart?_append "(" rest
      rw [readForm, opened]
      rfl
  | succ room inductionHypothesis =>
      obtain ⟨fuel, rfl⟩ : ∃ less, fuel = less + 2 := ⟨fuel - 2, by omega⟩
      have inner := inductionHypothesis (by omega : 2 * room + 1 ≤ fuel)
      have opened :
          Text.dropStart? (List.replicate (room + 1 + 1) (CodePoint.ofChar '(') ++ rest) "(" =
            some (List.replicate (room + 1) (CodePoint.ofChar '(') ++ rest) :=
        Text.dropStart?_append "(" _
      rw [readForm, opened]
      simp only [Nat.add_one_ne_zero, ↓reduceIte, Nat.add_sub_cancel, readMembers, inner]
      rfl

end TypeForm

namespace DeclaredType

/-- A description with a name that does not matter. -/
def describeAs (type : DeclaredType) (components : Components) : Description :=
  .mapping [(.text "name", .text "x"), (.text "type", .text type.text)] components

/-- A type is described by a description with components that fit it. -/
theorem describe_describeAs
    {type : DeclaredType}
    {components : Components}
    (fits : type.Fits components) :
    Describe [("x", type)] [type.describeAs components] :=
  ⟨rfl, rfl, fits, trivial⟩

/-- A parameter of a valid type with its description and a value that belongs to it. -/
structure WellTyped (type : DeclaredType) (components : Components) (v : Value) : Prop where
  described : Describe [("x", type)] [type.describeAs components]
  valid : allValid [("x", type)] = true
  distinct : allDistinctKeys [("x", type)] = true
  hold : allHold [("x", type)] [v] = true

/-- What makes a parameter well typed. -/
theorem WellTyped.of_fits
    {type : DeclaredType}
    {components : Components}
    {v : Value}
    (fits : type.Fits components)
    (valid : type.isValid = true)
    (distinct : type.hasDistinctKeys = true)
    (holds : type.holds v = true) :
    WellTyped type components v :=
  ⟨describe_describeAs fits, by simp [allValid, valid], by simp [allDistinctKeys, distinct],
    by simp [allHold, holds]⟩

/-- An array of any size of arrays of a given size. -/
def sizedArrays (size : Nat) : DeclaredType :=
  array (array (scalar .string) (some size)) none

theorem wellTyped_sizedArrays
    {size : Nat}
    (notZero : size ≠ 0) :
    WellTyped (sizedArrays size) .absent (.list []) :=
  .of_fits trivial (by simp [sizedArrays, isValid, ScalarType.isValid, notZero]) rfl
    (by simp [sizedArrays, DeclaredType.holds])

theorem ofText_sizedArrays
    {size : Nat}
    (long : tenTo AbiType.greatestSizeLength ≤ size)
    (notZero : size ≠ 0) :
    AbiType.ofText (sizedArrays size).signature = .error .longSize := by
  have member : Text.ofNat size ∈ (sizedArrays size).form.sizes := by
    simp [sizedArrays, form, TypeForm.sizes]
  exact ofText_signature_longSize
    (by simp [sizedArrays, isValid, ScalarType.isValid, notZero])
    (by simp [sizedArrays, parentheses]) member (Text.lt_length_ofNat long)

/-- A number of arrays of texts in each other. -/
def nestedArrays : (count : Nat) → DeclaredType
  | 0 => scalar .string
  | count + 1 => array (nestedArrays count) none

/-- Nested arrays are valid and have as many levels as there are arrays. -/
theorem nestedArrays_spec
    (count : Nat) :
    (nestedArrays count).isValid = true ∧ (nestedArrays count).hasDistinctKeys = true ∧
      (nestedArrays count).parentheses = 0 ∧ (nestedArrays count).form.sizes = [] ∧
        (nestedArrays count).form.levels = count ∧
          ∀ components, (nestedArrays count).Fits components := by
  induction count with
  | zero =>
      exact ⟨rfl, rfl, rfl, rfl, rfl, fun _ => trivial⟩
  | succ count inductionHypothesis =>
      obtain ⟨valid, distinct, parentheses, sizes, levels, fits⟩ := inductionHypothesis
      rw [nestedArrays]
      refine ⟨isValid_array_iff.mpr ⟨valid, by simp⟩, distinct, parentheses, ?_, ?_, fits⟩
      · simp [form, TypeForm.sizes, sizes]
      · rw [form, TypeForm.levels, levels]

/-- Nested arrays are arrays of texts. -/
theorem stem_nestedArrays
    (count : Nat) :
    (nestedArrays count).stem = scalar .string ∧ (nestedArrays count).depth = count := by
  induction count with
  | zero =>
      exact ⟨rfl, rfl⟩
  | succ count inductionHypothesis =>
      rw [nestedArrays, stem, depth, inductionHypothesis.2]
      exact ⟨inductionHypothesis.1, rfl⟩

theorem wellTyped_nestedArrays
    (count : Nat) :
    WellTyped (nestedArrays (count + 1)) .absent (.list []) := by
  obtain ⟨valid, distinct, -, -, -, fits⟩ := nestedArrays_spec (count + 1)
  exact .of_fits (fits .absent) valid distinct (by simp [nestedArrays, DeclaredType.holds])

theorem ofText_nestedArrays
    {count : Nat}
    (deep : AbiType.greatestLevels < count) :
    AbiType.ofText (nestedArrays count).signature = .error .tooNested := by
  obtain ⟨valid, -, parentheses, sizes, levels, -⟩ := nestedArrays_spec count
  refine ofText_signature_tooNested valid (by omega) ?_ (by rwa [levels])
  rw [sizes]
  rfl

/-- Arrays of texts are lists of texts. -/
theorem ofParameter_texts
    {type : DeclaredType}
    (isTexts : type.stem = scalar .string)
    (shallow : type.depth ≤ TypeExpression.greatestNesting)
    (place : Option Place)
    (marks : Entries)
    (name : Text) :
    TypeExpression.ofParameter place marks ⟨name, type.text, none, none⟩ =
      .ok (TypeExpression.listed (.named "str") type.depth) := by
  have isString : (scalar .string).text = "string" := by
    rfl
  rw [TypeExpression.ofParameter, arrayBase_text, isTexts, isString]
  dsimp only
  rw [if_neg (Nat.not_lt.mpr shallow)]
  rfl

/-- A number of tuples of one component in each other, with a text inside. -/
def nestedTuples : (count : Nat) → DeclaredType
  | 0 => scalar .string
  | count + 1 => tuple [("x", nestedTuples count)]

/-- The components of nested tuples. -/
def nestedComponents : (count : Nat) → Components
  | 0 => .absent
  | count + 1 => .listed [(nestedTuples count).describeAs (nestedComponents count)]

/-- The value of nested tuples with an empty text inside. -/
def nestedRecord : (count : Nat) → Value
  | 0 => .text []
  | count + 1 => .dict [(.text "x", nestedRecord count)]

/-- Nested tuples are valid, their value and their components belong to them, and their
signature begins with as many parentheses. -/
theorem nestedTuples_spec
    (count : Nat) :
    (nestedTuples count).isValid = true ∧ (nestedTuples count).hasDistinctKeys = true ∧
      (nestedTuples count).holds (nestedRecord count) = true ∧
        (nestedTuples count).Fits (nestedComponents count) ∧
          ∃ rest, (nestedTuples count).signature =
            List.replicate count (CodePoint.ofChar '(') ++ rest := by
  induction count with
  | zero =>
      exact ⟨rfl, rfl, rfl, trivial, ScalarType.string.text, rfl⟩
  | succ count inductionHypothesis =>
      obtain ⟨valid, distinct, holds, fits, rest, opened⟩ := inductionHypothesis
      have oneKey : keys [("x", nestedTuples count)] = [Text.ofString "x"] := by
        rfl
      have oneValue :
          valuesUnder ["x"] [(.text "x", nestedRecord count)] = [nestedRecord count] := by
        rfl
      rw [nestedTuples, nestedComponents, nestedRecord]
      refine ⟨?_, ?_, ?_, describe_describeAs fits, rest ++ ")", ?_⟩
      · exact isValid_tuple_iff.mpr ⟨by simpa using valid, by simp⟩
      · exact hasDistinctKeys_tuple_iff.mpr ⟨by simpa using distinct, by simp [oneKey]⟩
      · simp [DeclaredType.holds, oneKey, oneValue, allHold, holds, List.isPerm_iff,
          List.eraseDups_cons]
      · rw [signature, signatures, signatures, Text.join_singleton, opened]
        simp only [List.append_assoc]
        rfl

theorem wellTyped_nestedTuples
    (count : Nat) :
    WellTyped (nestedTuples count) (nestedComponents count) (nestedRecord count) := by
  obtain ⟨valid, distinct, holds, fits, -⟩ := nestedTuples_spec count
  exact .of_fits fits valid distinct holds

theorem ofText_nestedTuples
    {count : Nat}
    (deep : TypeForm.greatestNesting < count) :
    AbiType.ofText (nestedTuples count).signature = .error .tooNested := by
  obtain ⟨-, -, -, -, rest, opened⟩ := nestedTuples_spec count
  obtain ⟨more, rfl⟩ : ∃ more, count = TypeForm.greatestNesting + 1 + more :=
    ⟨count - (TypeForm.greatestNesting + 1), by omega⟩
  rw [← List.replicate_append_replicate, List.append_assoc] at opened
  have enough :
      2 * TypeForm.greatestNesting + 1 ≤
        2 * (nestedTuples (TypeForm.greatestNesting + 1 + more)).signature.length + 1 := by
    rw [opened, List.length_append, List.length_replicate]
    omega
  rw [AbiType.ofText, TypeForm.ofText]
  rw [opened] at enough ⊢
  rw [TypeForm.readForm_tooNested enough]

/-- A value of a type that is not read is refused. -/
theorem encodeParameters_of_unread
    {type : DeclaredType}
    {components : Components}
    {v : Value}
    (wellTyped : WellTyped type components v)
    {fault : Fault}
    (unread : ∀ failure, Codec.readTypes failure [type.signature] = .error (.fault fault)) :
    Codec.encodeParameters [type.describeAs components] [v] = .error (.fault fault) := by
  obtain ⟨described, -, -, hold⟩ := wellTyped
  have asMany : [type.describeAs components].length = [v].length := by
    rfl
  rw [Codec.encodeParameters, if_neg (not_not_intro asMany), mapM_ownType_of_describe described]
  simp only [Codec.encodeAs]
  rw [ofDescriptions_of_describe described]
  simp only [mapM_prepare hold, signatures, unread, bind, Except.bind]

/-- A value of a type with a size of too many digits is refused. -/
theorem encodeParameters_longSize
    {type : DeclaredType}
    {components : Components}
    {v : Value}
    (wellTyped : WellTyped type components v)
    (unread : AbiType.ofText type.signature = .error .longSize) :
    Codec.encodeParameters [type.describeAs components] [v] =
      .error (.fault .unreadableSize) := by
  refine encodeParameters_of_unread wellTyped fun failure => ?_
  rw [Codec.readTypes, List.mapM_cons, unread]
  rfl

/-- A value of a type with too many arrays or tuples in each other is refused. -/
theorem encodeParameters_tooNested
    {type : DeclaredType}
    {components : Components}
    {v : Value}
    (wellTyped : WellTyped type components v)
    (unread : AbiType.ofText type.signature = .error .tooNested) :
    Codec.encodeParameters [type.describeAs components] [v] =
      .error (.fault .tooNested) := by
  refine encodeParameters_of_unread wellTyped fun failure => ?_
  rw [Codec.readTypes, List.mapM_cons, unread]
  rfl

/-- Data is not decoded under a type that is not read. -/
theorem decodeParameters_of_unread
    {type : DeclaredType}
    {descriptions : List Description}
    (described : Describe [("x", type)] descriptions)
    {failure : TypeFailure}
    (unread : AbiType.ofText type.signature = .error failure)
    (data : Octets) :
    ∃ refusal, Codec.decodeParameters descriptions data = .error refusal := by
  have refused : ∀ reported, ∃ refusal,
      Codec.readTypes reported [type.signature] = .error refusal := by
    intro reported
    rw [Codec.readTypes, List.mapM_cons, unread]
    exact ⟨_, rfl⟩
  obtain ⟨refusal, notRead⟩ := refused (Codec.decodeFailure descriptions data)
  refine ⟨refusal, ?_⟩
  rw [Codec.decodeParameters, mapM_ownType_of_describe described]
  simp only [Codec.decodeAs, signatures, notRead, bind, Except.bind]

end DeclaredType

end ContractBindings
