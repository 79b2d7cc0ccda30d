import ContractBindings.Proofs.DeclaredValues
import ContractBindings.Proofs.Signatures

namespace ContractBindings

/-!
# Types that differ in names

Types of the same form differ in nothing but the names of components.  They are
read and encoded alike, and for each value of the one there is a value of the
other with the same encoding, in which only the keys are different.
-/

namespace ScalarType

theorem form_injective
    {a b : ScalarType}
    (sameForm : a.form = b.form) :
    a = b := by
  have written :
      ∀ type : ScalarType, ∃ letters sizes,
        type.form = .word letters sizes ∧ type.text = letters ++ sizes.toList.flatten := by
    intro type
    cases type with
    | uint width =>
        cases width <;> exact ⟨_, _, rfl, by simp [text, digits, sizes, Sizes.toList]⟩
    | int width =>
        cases width <;> exact ⟨_, _, rfl, by simp [text, digits, sizes, Sizes.toList]⟩
    | fixedBytes size =>
        exact ⟨_, _, rfl, by simp [text, Sizes.toList]⟩
    | _ =>
        exact ⟨_, _, rfl, by simp [text, Sizes.toList]⟩
  obtain ⟨letters, sizes, form, text⟩ := written a
  obtain ⟨otherLetters, otherSizes, otherForm, otherText⟩ := written b
  rw [form, otherForm] at sameForm
  obtain ⟨rfl, rfl⟩ := TypeForm.word.inj sameForm
  exact text_injective (text.trans otherText.symm)

end ScalarType

namespace DeclaredType

/-- Only the scalar type itself has its form. -/
theorem eq_scalar_of_form
    {type : ScalarType}
    {other : DeclaredType}
    (sameForm : (scalar type).form = other.form) :
    other = scalar type := by
  cases other with
  | scalar other =>
      rw [ScalarType.form_injective sameForm]
  | array element size =>
      cases type <;> cases sameForm
  | tuple components =>
      cases type <;> cases sameForm

/-- A type of the form of an array is an array of the same size. -/
theorem eq_array_of_form
    {element other : DeclaredType}
    {size : Option Nat}
    (sameForm : (array element size).form = other.form) :
    ∃ otherElement, other = array otherElement size ∧ element.form = otherElement.form := by
  cases other with
  | scalar other =>
      cases other <;> cases sameForm
  | array otherElement otherSize =>
      obtain ⟨sameElement, sameSize⟩ := TypeForm.array.inj sameForm
      have sameDigits : ScalarType.digits size = ScalarType.digits otherSize := by
        rw [ScalarType.digits, ScalarType.digits, sameSize]
      exact ⟨otherElement, by rw [ScalarType.digits_injective sameDigits], sameElement⟩
  | tuple components =>
      cases sameForm

/-- A type of the form of a tuple is a tuple with components of the same forms. -/
theorem eq_tuple_of_form
    {components : Declarations}
    {other : DeclaredType}
    (sameForm : (tuple components).form = other.form) :
    ∃ others, other = tuple others ∧ forms components = forms others := by
  cases other with
  | scalar other =>
      cases other <;> cases sameForm
  | array element size =>
      cases sameForm
  | tuple others =>
      exact ⟨others, rfl, TypeForm.tuple.inj sameForm⟩

/-- Declarations of the same forms as others with a first one have a first one. -/
theorem eq_cons_of_forms
    {declaration : Text × DeclaredType}
    {rest others : Declarations}
    (sameForms : forms (declaration :: rest) = forms others) :
    ∃ name type otherRest,
      others = (name, type) :: otherRest ∧ declaration.2.form = type.form ∧
        forms rest = forms otherRest := by
  cases others with
  | nil =>
      cases sameForms
  | cons other otherRest =>
      obtain ⟨sameForm, sameRest⟩ := List.cons.inj sameForms
      exact ⟨other.1, other.2, otherRest, rfl, sameForm, sameRest⟩

theorem eq_nil_of_forms
    {others : Declarations}
    (sameForms : forms [] = forms others) :
    others = [] := by
  cases others with
  | nil =>
      rfl
  | cons other otherRest =>
      cases sameForms

/-- Valid types of the same form are encoded alike. -/
theorem abiType_eq_of_form
    {type other : DeclaredType}
    (sameForm : type.form = other.form)
    (valid : type.isValid = true)
    (otherValid : other.isValid = true) :
    type.abiType = other.abiType := by
  have meant := ofForm?_form type valid
  rw [sameForm, ofForm?_form other otherValid] at meant
  exact (Option.some.inj meant).symm

/-- As many parentheses stand in each other in declarations of the same forms, if this
holds of each type. -/
theorem mostParentheses_eq_of_forms
    {declarations : Declarations}
    (each : ∀ declaration ∈ declarations, ∀ other : DeclaredType,
      declaration.2.form = other.form → declaration.2.parentheses = other.parentheses)
    {others : Declarations}
    (sameForms : forms declarations = forms others) :
    mostParentheses declarations = mostParentheses others := by
  induction declarations generalizing others with
  | nil =>
      rw [eq_nil_of_forms sameForms]
  | cons declaration rest inductionHypothesis =>
      obtain ⟨name, type, otherRest, rfl, sameForm, sameRest⟩ := eq_cons_of_forms sameForms
      rw [mostParentheses, mostParentheses, each declaration (by simp) type sameForm,
        inductionHypothesis (fun other member => each other (List.mem_cons_of_mem _ member))
          sameRest]

theorem parentheses_eq_of_form
    (type : DeclaredType) :
    ∀ other : DeclaredType, type.form = other.form → type.parentheses = other.parentheses := by
  induction type using inductionOnComponents with
  | scalar type =>
      intro other sameForm
      rw [eq_scalar_of_form sameForm]
  | array element size inductionHypothesis =>
      intro other sameForm
      obtain ⟨otherElement, rfl, sameElement⟩ := eq_array_of_form sameForm
      exact inductionHypothesis otherElement sameElement
  | tuple components inductionHypothesis =>
      intro other sameForm
      obtain ⟨others, rfl, sameComponents⟩ := eq_tuple_of_form sameForm
      rw [parentheses, parentheses,
        mostParentheses_eq_of_forms inductionHypothesis sameComponents]

/-- Types of the same form are read alike. -/
theorem isReadable_eq_of_form
    {type other : DeclaredType}
    (sameForm : type.form = other.form) :
    type.isReadable = other.isReadable := by
  rw [isReadable, isReadable, parentheses_eq_of_form type other sameForm, sameForm]

/-- Distinct keys are kept. -/
theorem eraseDups_of_nodup
    {keys : List Text}
    (distinct : keys.Nodup) :
    keys.eraseDups = keys := by
  induction keys with
  | nil =>
      rfl
  | cons key keys inductionHypothesis =>
      obtain ⟨absent, restDistinct⟩ := List.nodup_cons.mp distinct
      have noneLeft : keys.filter (fun other => ! other == key) = keys := by
        refine List.filter_eq_self.mpr fun other member => ?_
        rw [Bool.not_eq_true', beq_eq_false_iff_ne]
        rintro rfl
        exact absent member
      rw [List.eraseDups_cons, noneLeft, inductionHypothesis restDistinct]

/-- The values under distinct keys are those that were put there. -/
theorem valuesUnder_zip
    {keys : List Text}
    (distinct : keys.Nodup)
    {values : List Value}
    (asMany : values.length = keys.length) :
    valuesUnder keys ((keys.map Key.text).zip values) = values := by
  induction keys generalizing values with
  | nil =>
      rw [List.length_nil, List.length_eq_zero_iff] at asMany
      rw [asMany]
      rfl
  | cons key keys inductionHypothesis =>
      obtain ⟨value, values, rfl⟩ := List.exists_cons_of_length_eq_add_one asMany
      obtain ⟨absent, restDistinct⟩ := List.nodup_cons.mp distinct
      have others := inductionHypothesis restDistinct (Nat.succ.inj asMany)
      have first : Entries.get? ((Key.text key, value) :: (keys.map Key.text).zip values)
          (.text key) = some value := by
        rw [Entries.get?, if_pos ((Key.same_text_iff _ _).mpr rfl)]
      have passedOver : ∀ other ∈ keys,
          Entries.get? ((Key.text key, value) :: (keys.map Key.text).zip values) (.text other) =
            Entries.get? ((keys.map Key.text).zip values) (.text other) := by
        intro other member
        rw [Entries.get?, if_neg]
        intro same
        rw [Key.same_text_iff, Key.text.injEq] at same
        exact absent (same ▸ member)
      rw [valuesUnder] at others ⊢
      rw [List.map_cons, List.map_cons, List.zip_cons_cons, first,
        List.map_congr_left fun other member => by rw [passedOver other member], others]
      rfl

/-- A value of a type, with every mapping in the order of the components, is the value of
another type under other keys. -/
structure Renames
    (type : DeclaredType)
    (v : Value)
    (positional : Value) : Prop where
  holds : type.holds v = true
  isOrdered : type.ordered v = v
  samePositional : type.positional v = positional

/-- The values of a type can be renamed to those of any type of the same form. -/
def Renameable (type : DeclaredType) : Prop :=
  ∀ other : DeclaredType, type.form = other.form → other.hasDistinctKeys = true →
    ∀ v, type.holds v = true → ∃ w, Renames other w (type.positional v)

/-- The values of declarations are renamed, if those of each type can be. -/
theorem exists_allRenamed
    {declarations : Declarations}
    (renameable : ∀ declaration ∈ declarations, Renameable declaration.2)
    {others : Declarations}
    (sameForms : forms declarations = forms others)
    (distinct : ∀ other ∈ others, other.2.hasDistinctKeys = true)
    {values : List Value}
    (hold : allHold declarations values = true) :
    ∃ renamed,
      allHold others renamed = true ∧ allOrdered others renamed = renamed ∧
        allPositional others renamed = allPositional declarations values := by
  induction declarations generalizing others values with
  | nil =>
      rw [eq_nil_of_forms sameForms]
      exact ⟨[], rfl, rfl, rfl⟩
  | cons declaration rest inductionHypothesis =>
      obtain ⟨name, type, otherRest, rfl, sameForm, sameRest⟩ := eq_cons_of_forms sameForms
      cases values with
      | nil =>
          cases hold
      | cons v values =>
          rw [allHold, Bool.and_eq_true] at hold
          obtain ⟨w, holds, isOrdered, samePositional⟩ :=
            renameable declaration (by simp) type sameForm (distinct (name, type) (by simp)) v
              hold.1
          obtain ⟨renamed, restHold, restOrdered, restPositional⟩ :=
            inductionHypothesis
              (fun other member => renameable other (List.mem_cons_of_mem _ member)) sameRest
              (fun other member => distinct other (List.mem_cons_of_mem _ member)) hold.2
          refine ⟨w :: renamed, ?_, ?_, ?_⟩
          · rw [allHold, holds, restHold]
            rfl
          · rw [allOrdered, isOrdered, restOrdered]
          · rw [allPositional, allPositional, samePositional, restPositional]

/-- The elements of an array are renamed, if each can be. -/
theorem exists_renamedElements
    {type other : DeclaredType}
    {values : List Value}
    (renamed : ∀ v ∈ values, ∃ w, Renames other w (type.positional v)) :
    ∃ elements : List Value,
      elements.length = values.length ∧ (∀ w ∈ elements, other.holds w = true) ∧
        elements.map other.ordered = elements ∧
          elements.map other.positional = values.map type.positional := by
  induction values with
  | nil =>
      exact ⟨[], rfl, by simp, rfl, rfl⟩
  | cons v values inductionHypothesis =>
      obtain ⟨w, holds, isOrdered, samePositional⟩ := renamed v (by simp)
      obtain ⟨elements, asMany, allHold, allOrdered, allPositional⟩ :=
        inductionHypothesis fun other member => renamed other (List.mem_cons_of_mem _ member)
      refine ⟨w :: elements, ?_, ?_, ?_, ?_⟩
      · rw [List.length_cons, List.length_cons, asMany]
      · exact List.forall_mem_cons.mpr ⟨holds, allHold⟩
      · rw [List.map_cons, isOrdered, allOrdered]
      · rw [List.map_cons, List.map_cons, samePositional, allPositional]

/-- The values of every type can be renamed. -/
theorem renameable
    (type : DeclaredType) :
    Renameable type := by
  induction type using inductionOnComponents with
  | scalar type =>
      intro other sameForm distinct v holds
      rw [eq_scalar_of_form sameForm]
      have isOrdered : (scalar type).ordered v = v := by
        rw [ordered] <;> simp
      exact ⟨v, holds, isOrdered, rfl⟩
  | array element size inductionHypothesis =>
      intro other sameForm distinct v holds
      obtain ⟨otherElement, rfl, sameElement⟩ := eq_array_of_form sameForm
      obtain ⟨values, rfl, counted, each⟩ := holds_array holds
      obtain ⟨elements, asMany, elementsHold, elementsOrdered, elementsPositional⟩ :=
        exists_renamedElements fun v member =>
          inductionHypothesis otherElement sameElement distinct v (each v member)
      refine ⟨.list elements, ?_, ?_, ?_⟩
      · rw [DeclaredType.holds, asMany, counted, List.all_eq_true.mpr elementsHold]
        rfl
      · rw [ordered, elementsOrdered]
      · rw [positional, positional, elementsPositional]
  | tuple components inductionHypothesis =>
      intro other sameForm distinct v holds
      obtain ⟨others, rfl, sameComponents⟩ := eq_tuple_of_form sameForm
      obtain ⟨distinctWithin, distinctKeys⟩ := hasDistinctKeys_tuple_iff.mp distinct
      obtain ⟨entries, rfl, areKeys, hold⟩ := holds_tuple holds
      obtain ⟨renamed, renamedHold, renamedOrdered, renamedPositional⟩ :=
        exists_allRenamed inductionHypothesis sameComponents distinctWithin hold
      have asMany : renamed.length = (keys others).length := by
        rw [length_keys, length_of_allHold renamedHold]
      have values := valuesUnder_zip distinctKeys asMany
      -- The entries are written in the order of the other components, so they stay as they are.
      refine ⟨.dict (((keys others).map Key.text).zip renamed), ?_, ?_, ?_⟩
      · have sameKeys :
            (((keys others).map Key.text).zip renamed).map (·.1) = (keys others).map Key.text :=
          List.map_fst_zip (Nat.le_of_eq (by rw [List.length_map, asMany]))
        rw [DeclaredType.holds, sameKeys, eraseDups_of_nodup distinctKeys, values, renamedHold,
          List.isPerm_iff.mpr (List.Perm.refl _)]
        rfl
      · rw [ordered, values, renamedOrdered]
      · rw [positional, positional, values, renamedPositional]

end DeclaredType

end ContractBindings
