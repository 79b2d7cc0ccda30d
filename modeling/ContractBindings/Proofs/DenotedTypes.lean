import ContractBindings.Proofs.AcceptedTypes
import ContractBindings.Proofs.ReadForms

namespace ContractBindings

/-!
# Types that descriptions denote

A description that the codec can use denotes a declared type, whose expression is the
one that annotates the values.  For the description of a parameter this is the
expression that the parameter is mapped to; a hash, which is left of some indexed
parameters, denotes a string of 32 bytes.
-/

namespace Parameter

mutual

/-- No two components of a tuple share a key.  What stands as the components of
another type is not looked at. -/
def hasDistinctKeys : Parameter → Bool
  | ⟨_, type, components, _⟩ =>
      ! Text.startsWith type "tuple" || componentsHaveDistinctKeys components

def componentsHaveDistinctKeys : Option (List Parameter) → Bool
  | none => true
  | some components => allHaveDistinctKeys components && decide (keys components).Nodup

/-- No two components of a tuple in any of the parameters share a key. -/
def allHaveDistinctKeys : List Parameter → Bool
  | [] => true
  | parameter :: rest => parameter.hasDistinctKeys && allHaveDistinctKeys rest

end

theorem allHaveDistinctKeys_iff
    {parameters : List Parameter} :
    allHaveDistinctKeys parameters = true ↔
      ∀ parameter ∈ parameters, parameter.hasDistinctKeys = true := by
  induction parameters with
  | nil =>
      simp [allHaveDistinctKeys]
  | cons parameter parameters inductionHypothesis =>
      simp [allHaveDistinctKeys, inductionHypothesis]

end Parameter

namespace DeclaredType

/-- The components of the innermost element tell whether keys are distinct. -/
def DistinctAsComponents (type : DeclaredType) : Prop :=
  ∀ components, type.Has components →
    (∀ declarations, type.stem = .tuple declarations →
      Parameter.componentsHaveDistinctKeys components = true) →
        type.hasDistinctKeys = true

/-- A type has distinct keys if the parameter of the type has. -/
theorem DistinctAsComponents.hasDistinctKeys_eq
    {type : DeclaredType}
    (asComponents : DistinctAsComponents type)
    {parameter : Parameter}
    (sameType : parameter.type = type.text)
    (has : type.Has parameter.components)
    (distinct : parameter.hasDistinctKeys = true) :
    type.hasDistinctKeys = true := by
  refine asComponents parameter.components has ?_
  intro declarations isTuple
  obtain ⟨name, text, components, internalType⟩ := parameter
  dsimp only at sameType
  have isTupleText : Text.startsWith text "tuple" = true := by
    rw [sameType, text_eq, isTuple, Text.startsWith]
    exact congrArg Option.isSome (Text.dropStart?_append "tuple" type.suffixes)
  rw [Parameter.hasDistinctKeys, isTupleText] at distinct
  exact distinct

theorem distinctKeys_of_declare
    {declarations : Declarations}
    (asComponents : ∀ declaration ∈ declarations, DistinctAsComponents declaration.2)
    {parameters : List Parameter}
    (declared : Declare declarations parameters)
    (distinct : ∀ parameter ∈ parameters, parameter.hasDistinctKeys = true) :
    ∀ declaration ∈ declarations, declaration.2.hasDistinctKeys = true := by
  induction declarations generalizing parameters with
  | nil =>
      simp
  | cons declaration rest inductionHypothesis =>
      obtain ⟨parameter, others, rfl, -, sameType, has, restDeclared⟩ := declare_cons declared
      rw [List.forall_mem_cons] at asComponents distinct ⊢
      exact ⟨asComponents.1.hasDistinctKeys_eq sameType has distinct.1,
        inductionHypothesis asComponents.2 restDeclared distinct.2⟩

theorem distinctAsComponents
    (type : DeclaredType) :
    DistinctAsComponents type := by
  induction type using inductionOnComponents with
  | scalar scalar =>
      exact fun _ _ _ => rfl
  | array element size inductionHypothesis =>
      exact inductionHypothesis
  | tuple declarations inductionHypothesis =>
      intro components has distinct
      obtain ⟨members, rfl, declared⟩ := has_tuple has
      have membersDistinct := distinct declarations rfl
      rw [Parameter.componentsHaveDistinctKeys, Bool.and_eq_true,
        Parameter.allHaveDistinctKeys_iff, decide_eq_true_eq, Parameter.keys,
        names_of_declare declared] at membersDistinct
      exact hasDistinctKeys_tuple_iff.mpr
        ⟨distinctKeys_of_declare inductionHypothesis declared membersDistinct.1,
          membersDistinct.2⟩

end DeclaredType

namespace Description

/-- If values are encoded under the type in a description, then it is a declared type
with the given type expression. -/
def Denotes (description : Description) (expression : TypeExpression) : Prop :=
  ∀ text abiType, description.ownType = .ok text → AbiType.ofText text = .ok abiType →
    ∃ name type,
      DeclaredType.Describe [(name, type)] [description] ∧ type.isValid = true ∧
        type.hasDistinctKeys = true ∧ type.abiType = abiType ∧ type.expression = expression

/-- If values are encoded under the type in the description of an accepted parameter, then
the parameter declares a type that is described so. -/
theorem exists_declares_of_ofParameter
    {parameter : Parameter}
    {place : Option Place}
    {context marks : Entries}
    {expression : TypeExpression}
    (mapped : TypeExpression.ofParameter place context parameter = .ok expression)
    (noComponents : componentsIn marks = .absent)
    {text : Text}
    {abiType : AbiType}
    (hasText : (ofValue (parameter.describeWith marks)).ownType = .ok text)
    (ofText : AbiType.ofText text = .ok abiType) :
    ∃ type,
      parameter.Declares type ∧
        DeclaredType.Describe [(parameter.name, type)] [ofValue (parameter.describeWith marks)] ∧
          type.abiType = abiType ∧ type.expression = expression := by
  obtain ⟨entries, described, hasName, hasType, -⟩ := parameter.ofValue_describeWith noComponents
  rw [described] at hasText ⊢
  obtain ⟨form, read, meant⟩ := AbiType.form_of_ofText ofText
  have atEnd : TypeForm.Ends [] := by
    intro c first
    cases first
  rw [← List.append_nil text] at read
  obtain ⟨-, type, declares, sameForm, sameExpression⟩ :=
    parameter.readAsDeclared place context expression entries text _ _ _ _ _ _ mapped hasType
      hasText read atEnd atEnd meant
  have sameMeaning := type.ofForm?_form declares.valid
  rw [sameForm, meant, Option.some.injEq] at sameMeaning
  refine ⟨type, declares, ⟨hasName, ?_, ?_, trivial⟩, sameMeaning.symm, sameExpression⟩
  · rw [hasType, declares.text]
  · exact type.fits_describedComponents parameter.components declares.has

/-- The description of a parameter denotes the expression that the parameter is mapped to. -/
theorem denotes_of_ofParameter
    {parameter : Parameter}
    {place : Option Place}
    {context marks : Entries}
    {expression : TypeExpression}
    (mapped : TypeExpression.ofParameter place context parameter = .ok expression)
    (distinct : parameter.hasDistinctKeys = true)
    (noComponents : componentsIn marks = .absent) :
    Denotes (ofValue (parameter.describeWith marks)) expression := by
  intro text abiType hasText ofText
  obtain ⟨type, declares, described, isMeaning, isExpression⟩ :=
    exists_declares_of_ofParameter mapped noComponents hasText ofText
  exact ⟨parameter.name, type, described, declares.valid,
    type.distinctAsComponents.hasDistinctKeys_eq declares.text declares.has distinct,
    isMeaning, isExpression⟩

theorem denotes_hashed
    (name : Text) :
    Denotes (hashed (.text name)) (.named "Bytes32") := by
  intro text abiType hasText ofText
  cases hasText
  have isWord : (DeclaredType.scalar (.fixedBytes 32)).text = "bytes32" := by
    decide +kernel
  have isValid : (DeclaredType.scalar (.fixedBytes 32)).isValid = true := by
    decide
  have isReadable : (DeclaredType.scalar (.fixedBytes 32)).isReadable = true := by
    decide +kernel
  have isExpression :
      (DeclaredType.scalar (.fixedBytes 32)).expression = .named "Bytes32" := by
    decide +kernel
  have read := DeclaredType.ofText_signature isValid isReadable
  rw [DeclaredType.signature, ← DeclaredType.text, isWord, ofText, Except.ok.injEq] at read
  refine ⟨name, .scalar (.fixedBytes 32), ⟨rfl, ?_, trivial, trivial⟩, isValid, rfl, read.symm,
    isExpression⟩
  rw [isWord]
  rfl

end Description

end ContractBindings
