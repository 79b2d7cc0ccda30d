import ContractBindings.Abi.Signature
import ContractBindings.Proofs.DescribedTypes
import ContractBindings.Proofs.Steps

namespace ContractBindings

/-!
# Parameters of declared types

The interface of a contract declares parameters by name and text.  Parameters
that declare a type describe it to the codec, and the types in their signature
are those that the codec encodes under, whether they are declared types or not.
-/

namespace Parameter

/-- Parameters are built from their components. -/
@[elab_as_elim]
theorem inductionOnComponents
    {motive : Parameter → Prop}
    (plain : ∀ name type internalType, motive ⟨name, type, none, internalType⟩)
    (tuple :
      ∀ name type components internalType, (∀ component ∈ components, motive component) →
        motive ⟨name, type, some components, internalType⟩)
    (parameter : Parameter) :
    motive parameter :=
  @Parameter.rec motive
    (fun components => ∀ members, components = some members →
      ∀ member ∈ members, motive member)
    (fun members => ∀ member ∈ members, motive member)
    (fun name type components internalType each =>
      match components, each with
      | none, _ => plain name type internalType
      | some members, each => tuple name type members internalType (each members rfl))
    (fun _ same => nomatch same)
    (fun _ each _ same => Option.some.inj same ▸ each)
    (fun _ member => absurd member List.not_mem_nil)
    (fun _ _ first others _ member =>
      (List.mem_cons.mp member).elim (fun same => same ▸ first) (others _))
    parameter

/-- What holds of a parameter whenever it holds of its components holds of all parameters. -/
@[elab_as_elim]
theorem inductionOnMembers
    {motive : Parameter → Prop}
    (step :
      ∀ parameter : Parameter,
        (∀ components, parameter.components = some components →
          ∀ component ∈ components, motive component) →
        motive parameter)
    (parameter : Parameter) :
    motive parameter := by
  induction parameter using inductionOnComponents with
  | plain name type internalType =>
      refine step _ ?_
      rintro _ ⟨⟩
  | tuple name type components internalType inductionHypothesis =>
      refine step _ ?_
      rintro _ ⟨⟩
      exact inductionHypothesis

/-- What the description of a parameter says about components. -/
def describedComponents : Option (List Parameter) → Components
  | none => .absent
  | some members => .listed (Description.ofValues (describeAll members))

/-- Each parameter is described by its own description. -/
theorem ofValues_describeAll
    (parameters : List Parameter) :
    Description.ofValues (describeAll parameters) = descriptions parameters := by
  induction parameters with
  | nil =>
      rfl
  | cons parameter parameters inductionHypothesis =>
      rw [describeAll, Description.ofValues, inductionHypothesis]
      rfl

/-- A description has the name, the type and the components of the parameter, and what
the marks say. -/
theorem ofValue_describeWith
    (parameter : Parameter)
    {marks : Entries}
    (noComponents : Description.componentsIn marks = .absent) :
    ∃ entries,
      Description.ofValue (parameter.describeWith marks) =
          .mapping entries (describedComponents parameter.components) ∧
        Entries.get? entries (.text "name") = some (.text parameter.name) ∧
          Entries.get? entries (.text "type") = some (.text parameter.type) ∧
            Entries.get? entries (.text "indexed") = Entries.get? marks (.text "indexed") := by
  obtain ⟨name, type, components, internalType⟩ := parameter
  have differ :
      (Key.text "name").same (.text "components") = false ∧
        (Key.text "type").same (.text "components") = false := by
    decide
  have isComponents : (Key.text "components").same (.text "components") = true := by
    decide
  cases components with
  | none =>
      refine ⟨[(.text "name", .text name), (.text "type", .text type)] ++ marks, ?_,
        by rfl, by rfl, by rfl⟩
      simp only [describeWith, describe, Description.ofValue, List.cons_append, List.nil_append,
        Description.componentsIn, differ, noComponents, describedComponents,
        Bool.false_eq_true, ↓reduceIte]
  | some members =>
      refine ⟨[(.text "name", .text name), (.text "type", .text type),
        (.text "components", .list (describeAll members))] ++ marks, ?_, by rfl, by rfl, by rfl⟩
      simp only [describeWith, describe, Description.ofValue, List.cons_append, List.nil_append,
        Description.componentsIn, differ, isComponents, describedComponents,
        Description.componentsOf, Bool.false_eq_true, ↓reduceIte]

/-- Without marks a parameter describes itself. -/
theorem describeWith_nil
    (parameter : Parameter) :
    parameter.describeWith [] = parameter.describe := by
  obtain ⟨name, type, components, internalType⟩ := parameter
  cases components <;> rfl

/-- A description has the name, the type and the components of the parameter. -/
theorem ofValue_describe
    (parameter : Parameter) :
    ∃ entries,
      Description.ofValue parameter.describe =
          .mapping entries (describedComponents parameter.components) ∧
        Entries.get? entries (.text "name") = some (.text parameter.name) ∧
          Entries.get? entries (.text "type") = some (.text parameter.type) := by
  have noMarks : Description.componentsIn [] = .absent := by
    rfl
  obtain ⟨entries, described, hasName, hasType, -⟩ := parameter.ofValue_describeWith noMarks
  rw [describeWith_nil] at described
  exact ⟨entries, described, hasName, hasType⟩

/-- The keys of described parameters are those of the parameters. -/
theorem keys_descriptions
    (parameters : List Parameter) :
    Description.keys (descriptions parameters) = .ok ((keys parameters).map .text) := by
  refine Description.keys_of_names ?_
  rw [descriptions, List.mapM_map, List.map_map]
  refine mapM_eq_ok fun parameter _ => ?_
  obtain ⟨entries, described, hasName, -⟩ := parameter.ofValue_describe
  rw [Function.comp_apply, described, Description.name, Description.required, hasName]
  rfl

/-- Parameters that all have names are stored under these. -/
theorem keys_of_named
    {parameters : List Parameter}
    (named : ∀ parameter ∈ parameters, parameter.name.isEmpty = false) :
    keys parameters = parameters.map (·.name) := by
  have kept :
      ∀ (next : Nat) (names : List Text), (∀ name ∈ names, name.isEmpty = false) →
        fillNames standIn (! ·.isEmpty) next names = names := by
    intro next names allNamed
    induction names generalizing next with
    | nil =>
        rfl
    | cons name names inductionHypothesis =>
        rw [fillNames, allNamed name (by simp),
          inductionHypothesis next fun other member => allNamed other (by simp [member])]
        rfl
  refine kept 1 _ fun name member => ?_
  obtain ⟨parameter, isMember, rfl⟩ := List.mem_map.mp member
  exact named parameter isMember

/-- The type in signatures is the one that the codec encodes under. -/
def SignedAsEncoded (parameter : Parameter) : Prop :=
  ∀ place marks type entries, parameter.canonicalType place marks = .ok type →
    Entries.get? entries (.text "type") = some (.text parameter.type) →
      Description.encodedType (.mapping entries (describedComponents parameter.components)) =
        .ok type

/-- The types in signatures are those that the codec encodes under, if each of them is. -/
theorem encodedTypes_of_canonicalTypes
    {parameters : List Parameter}
    (signed : ∀ parameter ∈ parameters, SignedAsEncoded parameter)
    {place : Option Place}
    {types : List Text}
    (canonical : canonicalTypes place parameters = .ok types) :
    Description.encodedTypes (Description.ofValues (describeAll parameters)) = .ok types := by
  induction parameters generalizing types with
  | nil =>
      rw [canonicalTypes] at canonical
      cases canonical
      rfl
  | cons parameter rest inductionHypothesis =>
      simp only [canonicalTypes, bind_eq_ok_iff, pure_eq_ok_iff] at canonical
      obtain ⟨type, ofFirst, others, ofRest, rfl⟩ := canonical
      obtain ⟨entries, described, -, hasType⟩ := parameter.ofValue_describe
      rw [describeAll, Description.ofValues, Description.encodedTypes, described,
        signed parameter (by simp) place [] type entries ofFirst hasType,
        inductionHypothesis
          (fun other member => signed other (List.mem_cons_of_mem _ member)) ofRest]
      rfl

/-- The type of every parameter in signatures is the one that the codec encodes under. -/
theorem signedAsEncoded
    (parameter : Parameter) :
    SignedAsEncoded parameter := by
  induction parameter using inductionOnComponents with
  | plain name type internalType =>
      intro place marks canonical entries isCanonical hasType
      rw [canonicalType] at isCanonical
      rw [Description.encodedType, hasType]
      cases isTuple : Text.dropStart? type "tuple" with
      | none =>
          simp only [isTuple] at isCanonical ⊢
          cases isCanonical
          rfl
      | some suffix =>
          -- Without components there is no signature to agree with.
          simp only [isTuple, canonicalComponents, bind, Except.bind] at isCanonical
          cases isCanonical
  | tuple name type components internalType inductionHypothesis =>
      intro place marks canonical entries isCanonical hasType
      rw [canonicalType] at isCanonical
      rw [Description.encodedType, hasType]
      cases isTuple : Text.dropStart? type "tuple" with
      | none =>
          simp only [isTuple] at isCanonical ⊢
          cases isCanonical
          rfl
      | some suffix =>
          simp only [isTuple, canonicalComponents, bind_eq_ok_iff] at isCanonical
          obtain ⟨types, ofComponents, written⟩ := isCanonical
          have encoded := encodedTypes_of_canonicalTypes inductionHypothesis ofComponents
          simp only [isTuple, describedComponents, Description.componentTypes, encoded]
          cases types with
          | nil =>
              cases written
          | cons first others =>
              cases written
              rfl

/-- The types of parameters in a signature are those that the codec encodes under. -/
theorem mapM_ownType_of_canonicalTypes
    {parameters : List Parameter}
    {place : Option Place}
    {types : List Text}
    (canonical : canonicalTypes place parameters = .ok types) :
    (descriptions parameters).mapM Description.ownType = .ok types := by
  have encoded := encodedTypes_of_canonicalTypes (fun _ _ => signedAsEncoded _) canonical
  rw [ofValues_describeAll] at encoded
  rw [← encoded]
  clear canonical encoded
  induction parameters with
  | nil =>
      rfl
  | cons parameter rest inductionHypothesis =>
      obtain ⟨entries, described, -⟩ := parameter.ofValue_describe
      rw [descriptions] at inductionHypothesis ⊢
      rw [List.map_cons, List.mapM_cons, inductionHypothesis, described,
        Description.encodedTypes]
      rfl

end Parameter

namespace DeclaredType

mutual

/-- The components of a parameter are those of the type. -/
def Has : DeclaredType → Option (List Parameter) → Prop
  | .scalar _, _ => True
  | .array element _, components => element.Has components
  | .tuple declarations, some members => Declare declarations members
  | .tuple _, none => False

/-- Parameters with the names and the types of declarations, in order. -/
def Declare : Declarations → List Parameter → Prop
  | [], [] => True
  | (name, type) :: rest, parameter :: parameters =>
      parameter.name = name ∧ parameter.type = type.text ∧ type.Has parameter.components ∧
        Declare rest parameters
  | _, _ => False

end

theorem declare_cons
    {name : Text}
    {type : DeclaredType}
    {rest : Declarations}
    {parameters : List Parameter}
    (declared : Declare ((name, type) :: rest) parameters) :
    ∃ parameter others,
      parameters = parameter :: others ∧ parameter.name = name ∧
        parameter.type = type.text ∧ type.Has parameter.components ∧ Declare rest others := by
  cases parameters with
  | nil =>
      cases declared
  | cons parameter others =>
      exact ⟨parameter, others, rfl, declared⟩

theorem declare_nil
    {parameters : List Parameter}
    (declared : Declare [] parameters) :
    parameters = [] := by
  cases parameters with
  | nil =>
      rfl
  | cons parameter others =>
      cases declared

/-- Only the components of a tuple are its own. -/
theorem has_tuple
    {declarations : Declarations}
    {components : Option (List Parameter)}
    (has : (DeclaredType.tuple declarations).Has components) :
    ∃ members, components = some members ∧ Declare declarations members := by
  cases components with
  | none =>
      cases has
  | some members =>
      exact ⟨members, rfl, has⟩

theorem names_of_declare
    {declarations : Declarations}
    {parameters : List Parameter}
    (declared : Declare declarations parameters) :
    parameters.map (·.name) = declarations.map (·.1) := by
  induction declarations generalizing parameters with
  | nil =>
      rw [declare_nil declared]
      rfl
  | cons declaration rest inductionHypothesis =>
      obtain ⟨parameter, others, rfl, sameName, -, -, restDeclared⟩ := declare_cons declared
      rw [List.map_cons, List.map_cons, sameName, inductionHypothesis restDeclared]

theorem length_of_declare
    {declarations : Declarations}
    {parameters : List Parameter}
    (declared : Declare declarations parameters) :
    parameters.length = declarations.length := by
  have sameNames := congrArg List.length (names_of_declare declared)
  rwa [List.length_map, List.length_map] at sameNames

/-- Parameters describe their declarations, if the components of each fit. -/
theorem describe_of_fits
    {declarations : Declarations}
    (fits : ∀ declaration ∈ declarations, ∀ components,
      declaration.2.Has components →
        declaration.2.Fits (Parameter.describedComponents components))
    {parameters : List Parameter}
    (declared : Declare declarations parameters) :
    Describe declarations (Parameter.descriptions parameters) := by
  induction declarations generalizing parameters with
  | nil =>
      rw [declare_nil declared]
      trivial
  | cons declaration rest inductionHypothesis =>
      obtain ⟨parameter, others, rfl, sameName, sameType, has, restDeclared⟩ :=
        declare_cons declared
      obtain ⟨entries, described, hasName, hasType⟩ := parameter.ofValue_describe
      rw [Parameter.descriptions, List.map_cons, described, Describe, ← sameName, ← sameType]
      exact ⟨hasName, hasType, fits declaration (by simp) _ has,
        inductionHypothesis (fun other member => fits other (List.mem_cons_of_mem _ member))
          restDeclared⟩

/-- The described components of a parameter fit its type. -/
theorem fits_describedComponents
    (type : DeclaredType) :
    ∀ components, type.Has components →
      type.Fits (Parameter.describedComponents components) := by
  induction type using inductionOnComponents with
  | scalar scalar =>
      intro components _
      trivial
  | array element size inductionHypothesis =>
      exact inductionHypothesis
  | tuple declarations inductionHypothesis =>
      intro components has
      obtain ⟨members, rfl, declared⟩ := has_tuple has
      have described := describe_of_fits inductionHypothesis declared
      rwa [← Parameter.ofValues_describeAll] at described

theorem describe_of_declare
    {declarations : Declarations}
    {parameters : List Parameter}
    (declared : Declare declarations parameters) :
    Describe declarations (Parameter.descriptions parameters) :=
  describe_of_fits (fun declaration _ => declaration.2.fits_describedComponents) declared

/-- The components of the innermost element are signed as declared. -/
def SignsComponents (type : DeclaredType) : Prop :=
  ∀ declarations members place, type.stem = .tuple declarations →
    Declare declarations members →
      Parameter.canonicalTypes place members = .ok (signatures declarations)

/-- The innermost element of a valid type is valid. -/
theorem isValid_stem
    (type : DeclaredType)
    (valid : type.isValid = true) :
    type.stem.isValid = true := by
  induction type using inductionOnComponents with
  | array element size inductionHypothesis =>
      exact inductionHypothesis (isValid_array_iff.mp valid).1
  | _ =>
      exact valid

/-- Components belong to an array if they belong to its innermost element. -/
theorem has_stem
    (type : DeclaredType)
    (components : Option (List Parameter)) :
    type.stem.Has components ↔ type.Has components := by
  induction type using inductionOnComponents with
  | array element size inductionHypothesis =>
      exact inductionHypothesis
  | _ =>
      exact Iff.rfl

/-- A parameter of a valid type has the type of its declaration in signatures. -/
theorem SignsComponents.canonicalType_eq
    {type : DeclaredType}
    (signs : SignsComponents type)
    (valid : type.isValid = true)
    {parameter : Parameter}
    (sameType : parameter.type = type.text)
    (has : type.Has parameter.components)
    (place : Option Place)
    (marks : Entries) :
    parameter.canonicalType place marks = .ok type.signature := by
  obtain ⟨name, text, components, internalType⟩ := parameter
  dsimp only at sameType has
  rw [Parameter.canonicalType, sameType]
  rcases type.stem_cases with ⟨scalar, isScalar⟩ | ⟨declarations, isTuple⟩
  · have noTuple : Text.dropStart? type.text "tuple" = none := by
      rw [text_eq, isScalar]
      exact ScalarType.dropStart?_tuple scalar type.suffixes
    simp only [noTuple]
    rw [text_eq, signature_eq, isScalar, DeclaredType.text, signature]
  · have stemHas := (has_stem type components).mpr has
    have stemValid := type.isValid_stem valid
    rw [isTuple] at stemHas stemValid
    obtain ⟨members, rfl, declared⟩ := has_tuple stemHas
    have isTupleText : Text.dropStart? type.text "tuple" = some type.suffixes := by
      rw [text_eq, isTuple]
      exact Text.dropStart?_append "tuple" type.suffixes
    simp only [isTupleText, Parameter.canonicalComponents,
      signs declarations members place isTuple declared]
    rw [signature_eq, isTuple, signature]
    cases declarations with
    | nil =>
        exact absurd rfl (isValid_tuple_iff.mp stemValid).2
    | cons declaration others =>
        rfl

/-- Parameters have the types of their declarations in signatures, if the components of
each have. -/
theorem canonicalTypes_of_signsComponents
    {declarations : Declarations}
    (signs : ∀ declaration ∈ declarations, SignsComponents declaration.2)
    (valid : ∀ declaration ∈ declarations, declaration.2.isValid = true)
    {parameters : List Parameter}
    (declared : Declare declarations parameters)
    (place : Option Place) :
    Parameter.canonicalTypes place parameters = .ok (signatures declarations) := by
  induction declarations generalizing parameters with
  | nil =>
      rw [declare_nil declared]
      rfl
  | cons declaration rest inductionHypothesis =>
      obtain ⟨parameter, others, rfl, -, sameType, has, restDeclared⟩ := declare_cons declared
      rw [Parameter.canonicalTypes,
        (signs declaration (by simp)).canonicalType_eq (valid declaration (by simp)) sameType has,
        inductionHypothesis
          (fun other member => signs other (List.mem_cons_of_mem _ member))
          (fun other member => valid other (List.mem_cons_of_mem _ member)) restDeclared]
      rfl

/-- The components of every valid type are signed as declared. -/
theorem signsComponents
    (type : DeclaredType)
    (valid : type.isValid = true) :
    SignsComponents type := by
  induction type using inductionOnComponents with
  | scalar scalar =>
      intro declarations members place isTuple
      cases isTuple
  | array element size inductionHypothesis =>
      exact inductionHypothesis (isValid_array_iff.mp valid).1
  | tuple declarations inductionHypothesis =>
      rintro _ members place ⟨⟩ declared
      have componentsValid := (isValid_tuple_iff.mp valid).1
      exact canonicalTypes_of_signsComponents
        (fun component member =>
          inductionHypothesis component member (componentsValid component member))
        componentsValid declared place

/-- Parameters of valid types have these types in signatures. -/
theorem canonicalTypes_of_declare
    {declarations : Declarations}
    (valid : allValid declarations = true)
    {parameters : List Parameter}
    (declared : Declare declarations parameters)
    (place : Option Place) :
    Parameter.canonicalTypes place parameters = .ok (signatures declarations) := by
  rw [allValid_iff] at valid
  exact canonicalTypes_of_signsComponents
    (fun declaration member => signsComponents declaration.2 (valid declaration member)) valid
    declared place

/-- UTF-8 can write the signature of declared types, if it can write the name. -/
theorem isScalar_signatureOf
    {name : Text}
    (isName : Text.isScalar name = true)
    (declarations : Declarations) :
    Text.isScalar (signatureOf name (signatures declarations)) = true := by
  have ofTypes : Text.isScalar (Text.join "," (signatures declarations)) = true :=
    Text.isScalar_join (by rfl)
      (forall_mem_signatures fun declaration _ => declaration.2.isScalar_signature)
  rw [signatureOf]
  simp only [Text.isScalar, List.all_append, Bool.and_eq_true] at isName ofTypes ⊢
  exact ⟨⟨⟨isName, by decide⟩, ofTypes⟩, by decide⟩

/-- Values that are well typed for the parameters of an interface, whose types are read. -/
structure TypedFor
    (parameters : List Parameter)
    (declarations : Declarations)
    (values : List Value) : Prop where
  declared : Declare declarations parameters
  valid : allValid declarations = true
  readable : ∀ declaration ∈ declarations, declaration.2.isReadable = true
  hold : allHold declarations values = true

end DeclaredType

end ContractBindings
