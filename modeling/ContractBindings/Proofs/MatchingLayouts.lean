import ContractBindings.Proofs.DescribedTypes
import ContractBindings.Proofs.ReadForms
import ContractBindings.Proofs.SuppliedValues

namespace ContractBindings

/-!
# Layouts and the types that are read

A described tuple is used twice: its layout says how values are prepared, and the text of its type
is read for the encoding.  Main statement: the two agree in where tuples stand and in how many
members they have, if the components have types that are types by themselves; otherwise two
components, `(uint8` and `uint8)`, can be read as one.  Descriptions of declared types are of this
kind.
-/

namespace Description

/-- The type of a description is a type by itself. -/
def StandsAlone (description : Description) : Prop :=
  ∃ text form, description.encodedType = .ok text ∧ TypeForm.ofText text = .ok form

mutual

/-- The components of tuples, at any depth, have types that are types by themselves. -/
def IsFormed : Description → Prop
  | .mapping entries components =>
      ∀ type, Entries.get? entries (.text "type") = some (.text type) →
        Text.ofString "tuple" <+: type → AreFormed components
  | .bare _ => True
  | .malformed => True

/-- All components that are listed have types that are types by themselves. -/
def AreFormed : Components → Prop
  | .listed members => AllFormed members
  | .absent => True
  | .malformed => True

/-- Several components have types that are types by themselves. -/
def AllFormed : List Description → Prop
  | [] => True
  | description :: rest => description.StandsAlone ∧ description.IsFormed ∧ AllFormed rest

end

/-- The texts of types of components are forms by themselves. -/
theorem exists_forms_of_allFormed
    {members : List Description}
    (areFormed : AllFormed members)
    {texts : List Text}
    (ofMembers : members.mapM encodedType = .ok texts) :
    ∃ forms, texts.mapM TypeForm.ofText = .ok forms := by
  induction members generalizing texts with
  | nil =>
      cases ofMembers
      exact ⟨[], rfl⟩
  | cons member members inductionHypothesis =>
      simp only [List.mapM_cons, bind_eq_ok_iff, pure_eq_ok_iff] at ofMembers
      obtain ⟨text, ofMember, others, ofOthers, rfl⟩ := ofMembers
      obtain ⟨⟨own, form, ofOwn, isForm⟩, -, othersFormed⟩ := areFormed
      rw [ofMember, Except.ok.injEq] at ofOwn
      subst ofOwn
      obtain ⟨forms, areForms⟩ := inductionHypothesis othersFormed ofOthers
      refine ⟨form :: forms, ?_⟩
      rw [List.mapM_cons, isForm, areForms]
      rfl

theorem isFormed_of_allFormed
    {descriptions : List Description}
    (areFormed : AllFormed descriptions) :
    ∀ description ∈ descriptions, description.IsFormed := by
  induction descriptions with
  | nil =>
      exact fun description isOne => absurd isOne List.not_mem_nil
  | cons description rest inductionHypothesis =>
      obtain ⟨-, isFormed, restFormed⟩ := areFormed
      exact List.forall_mem_cons.mpr ⟨isFormed, inductionHypothesis restFormed⟩

end Description

namespace DeclaredType

open Description

/-- Components that fit the type are formed where the innermost element is a tuple. -/
def HasFormedComponents (type : DeclaredType) : Prop :=
  type.isValid = true → type.parentheses ≤ TypeForm.greatestNesting →
    ∀ components, type.Fits components → (∃ declarations, type.stem = .tuple declarations) →
      AreFormed components

theorem HasFormedComponents.isFormed
    {type : DeclaredType}
    (hasFormed : HasFormedComponents type)
    (valid : type.isValid = true)
    (nesting : type.parentheses ≤ TypeForm.greatestNesting)
    {entries : Entries}
    {components : Components}
    (hasType : Entries.get? entries (.text "type") = some (.text type.text))
    (fits : type.Fits components) :
    IsFormed (.mapping entries components) := by
  rintro own hasOwn ⟨rest, isTuple⟩
  rw [hasType, Option.some.injEq, Value.text.injEq] at hasOwn
  subst hasOwn
  refine hasFormed valid nesting components fits ?_
  rcases type.stem_cases with ⟨scalar, isScalar⟩ | isTupleStem
  · have noTuple := ScalarType.dropStart?_tuple scalar type.suffixes
    have stemText : type.text = scalar.text ++ type.suffixes := by
      rw [text_eq, isScalar, text]
    rw [← stemText, ← isTuple, Text.dropStart?_append] at noTuple
    cases noTuple
  · exact isTupleStem

theorem allFormed_of_hasFormedComponents
    {declarations : Declarations}
    (each : ∀ declaration ∈ declarations, HasFormedComponents declaration.2)
    (valid : allValid declarations = true)
    (nesting : mostParentheses declarations ≤ TypeForm.greatestNesting)
    {descriptions : List Description}
    (described : Describe declarations descriptions) :
    AllFormed descriptions := by
  induction declarations generalizing descriptions with
  | nil =>
      cases descriptions with
      | nil =>
          trivial
      | cons description others =>
          cases described
  | cons declaration rest inductionHypothesis =>
      obtain ⟨name, type⟩ := declaration
      obtain ⟨entries, components, others, rfl, -, hasType, fits, restDescribed⟩ :=
        describe_cons described
      rw [List.forall_mem_cons] at each
      rw [allValid, Bool.and_eq_true] at valid
      rw [mostParentheses, Nat.max_le] at nesting
      refine ⟨⟨type.signature, type.form, ?_, ?_⟩, ?_, ?_⟩
      · exact (readsComponents type).encodedType_eq hasType fits
      · exact typeForm_ofText_signature valid.1 nesting.1
      · exact each.1.isFormed valid.1 nesting.1 hasType fits
      · exact inductionHypothesis each.2 valid.2 nesting.2 restDescribed

theorem hasFormedComponents
    (type : DeclaredType) :
    HasFormedComponents type := by
  induction type using inductionOnComponents with
  | scalar scalar =>
      rintro - - components - ⟨declarations, isTuple⟩
      cases isTuple
  | array element size inductionHypothesis =>
      intro valid nesting components fits isTuple
      exact inductionHypothesis (isValid_array_iff.mp valid).1 nesting components fits isTuple
  | tuple declarations inductionHypothesis =>
      intro valid nesting components fits _
      obtain ⟨members, rfl, described⟩ := fits_tuple fits
      exact allFormed_of_hasFormedComponents inductionHypothesis
        (allValid_iff.mpr (isValid_tuple_iff.mp valid).1) (Nat.le_of_succ_le nesting) described

/-- Descriptions of valid types are formed. -/
theorem isFormed_of_describe
    {declarations : Declarations}
    {descriptions : List Description}
    (described : Describe declarations descriptions)
    (valid : allValid declarations = true)
    (nesting : mostParentheses declarations ≤ TypeForm.greatestNesting) :
    ∀ description ∈ descriptions, description.IsFormed :=
  isFormed_of_allFormed <|
    allFormed_of_hasFormedComponents (fun declaration _ => declaration.2.hasFormedComponents)
      valid nesting described

end DeclaredType

namespace Layout

/-- A layout in which no tuple is taken apart. -/
def isFlat : Layout → Bool
  | .list element => element.isFlat
  | .record _ _ => false
  | _ => true

mutual

/-- Where a layout takes tuples apart, the type has tuples of as many members. -/
def Matches : Layout → AbiType → Prop
  | .record _ members, .tuple types => AllMatch members types
  | .record _ _, _ => False
  | .list element, .array type _ => Matches element type
  | .list element, _ => element.isFlat = true
  | _, _ => True

/-- Layouts match types one by one. -/
def AllMatch : List Layout → List AbiType → Prop
  | [], [] => True
  | member :: members, type :: types => Matches member type ∧ AllMatch members types
  | _, _ => False

end

theorem matches_of_isFlat
    {layout : Layout}
    (flat : layout.isFlat = true)
    (type : AbiType) :
    Matches layout type := by
  induction layout using inductionOnMembers generalizing type with
  | list element inductionHypothesis =>
      cases type with
      | array type size =>
          exact inductionHypothesis flat type
      | _ =>
          exact flat
  | record =>
      cases flat
  | plain | address | broken =>
      simp only [Matches]

theorem listed_list
    (element : Layout)
    (count : Nat) :
    listed (.list element) count = listed element (count + 1) := by
  induction count with
  | zero =>
      rfl
  | succ count inductionHypothesis =>
      rw [listed, inductionHypothesis]
      rfl

theorem isFlat_listed
    {element : Layout}
    (flat : element.isFlat = true)
    (count : Nat) :
    (listed element count).isFlat = true := by
  induction count with
  | zero =>
      exact flat
  | succ count inductionHypothesis =>
      exact inductionHypothesis

/-- Lists around a layout match the arrays around a type. -/
theorem matches_listed
    {element : Layout}
    {form : TypeForm}
    (ofElement : ∀ type, AbiType.ofForm? form = some type → Matches element type)
    {numbers : List (Option Nat)}
    {type : AbiType}
    (meant : AbiType.ofForm? (form.within numbers) = some type) :
    Matches (listed element numbers.length) type := by
  induction numbers generalizing element form with
  | nil =>
      exact ofElement type meant
  | cons number numbers inductionHypothesis =>
      have ofArray : ∀ array, AbiType.ofForm? (.array form (number.map Text.ofNat)) = some array →
          Matches (.list element) array := by
        intro array isArray
        rw [AbiType.ofForm?, Option.map_eq_some_iff] at isArray
        obtain ⟨inner, ofInner, rfl⟩ := isArray
        exact ofElement inner ofInner
      rw [List.length_cons, ← listed_list]
      exact inductionHypothesis ofArray meant

/-- The layout of a description, if it is formed, matches what its text means. -/
def MatchesRead (description : Description) : Prop :=
  ∀ text form type, description.IsFormed → description.encodedType = .ok text →
    TypeForm.ofText text = .ok form → AbiType.ofForm? form = some type →
      Matches (ofDescription description) type

theorem allMatch_of_forms
    {members : List Description}
    (each : ∀ member ∈ members, MatchesRead member)
    (areFormed : Description.AllFormed members)
    {texts : List Text}
    (ofMembers : members.mapM Description.encodedType = .ok texts)
    {forms : List TypeForm}
    (areForms : texts.mapM TypeForm.ofText = .ok forms)
    {types : List AbiType}
    (meant : AbiType.ofForms? forms = some types) :
    AllMatch (ofDescriptions members) types := by
  induction members generalizing texts forms types with
  | nil =>
      cases ofMembers
      cases areForms
      cases meant
      trivial
  | cons member members inductionHypothesis =>
      simp only [List.mapM_cons, bind_eq_ok_iff, pure_eq_ok_iff] at ofMembers
      obtain ⟨text, ofMember, others, ofOthers, rfl⟩ := ofMembers
      simp only [List.mapM_cons, bind_eq_ok_iff, pure_eq_ok_iff] at areForms
      obtain ⟨form, isForm, otherForms, areOthers, rfl⟩ := areForms
      simp only [AbiType.ofForms?, Option.bind_eq_bind, Option.bind_eq_some_iff,
        Option.pure_def, Option.some.injEq] at meant
      obtain ⟨type, ofForm, otherTypes, ofOtherForms, rfl⟩ := meant
      obtain ⟨-, isFormed, othersFormed⟩ := areFormed
      rw [List.forall_mem_cons] at each
      exact ⟨each.1 text form type isFormed ofMember isForm ofForm,
        inductionHypothesis each.2 othersFormed ofOthers areOthers ofOtherForms⟩

end Layout

namespace TypeForm

/-- What is read of a tuple with suffixes behind it is the tuple in as many arrays. -/
theorem eq_within_of_ofText
    {texts : List Text}
    {forms : List TypeForm}
    (areForms : texts.mapM ofText = .ok forms)
    {sizes : List Text}
    (areSizes : ∀ size ∈ sizes, ∀ c ∈ size, c.isDecimalDigit = true)
    {ending : Text}
    (isEnding : Text.IsEnding ending)
    {form : TypeForm}
    (read :
      ofText ("(" ++ Text.join "," texts ++ ")" ++ (Text.arraySuffixes sizes ++ ending)) =
        .ok form) :
    ∃ numbers : List (Option Nat),
      numbers.length = sizes.length ∧ form = (TypeForm.tuple forms).within numbers := by
  have readWhole := readForm_of_ofText read
  rcases readForm_cases readWhole with
    ⟨word, rest, notOpened, -⟩ | ⟨less, inside, members, rest, -, whole, ofInside, ofSuffixes⟩
  · rw [List.append_assoc, List.append_assoc, Text.dropStart?_append] at notOpened
    cases notOpened
  · rw [List.append_assoc, List.append_assoc] at whole
    rw [← List.append_cancel_left whole] at ofInside
    obtain ⟨rfl, rfl⟩ := eq_of_readMembers areForms ofInside
    rw [← List.append_nil ending] at ofSuffixes
    have atEnd : Ends [] := nofun
    obtain ⟨-, -, numbers, rfl, -, rfl⟩ :=
      readSuffixes_ends areSizes isEnding atEnd ofSuffixes atEnd
    exact ⟨numbers, by simp, rfl⟩

end TypeForm

namespace Layout

/-- Descriptions of tuples, in arrays or by themselves, match what is read of their texts. -/
theorem matches_tuple
    {members : List Description}
    (each : ∀ member ∈ members, MatchesRead member)
    (areFormed : Description.AllFormed members)
    {texts : List Text}
    (ofMembers : members.mapM Description.encodedType = .ok texts)
    {sizes : List Text}
    (areSizes : ∀ size ∈ sizes, ∀ c ∈ size, c.isDecimalDigit = true)
    {ending : Text}
    (isEnding : Text.IsEnding ending)
    {form : TypeForm}
    (isForm :
      TypeForm.ofText ("(" ++ Text.join "," texts ++ ")" ++ (Text.arraySuffixes sizes ++ ending)) =
        .ok form)
    {type : AbiType}
    (meant : AbiType.ofForm? form = some type) :
    Matches (listed (ofComponents (.listed members)) sizes.length) type := by
  obtain ⟨forms, areForms⟩ := Description.exists_forms_of_allFormed areFormed ofMembers
  obtain ⟨numbers, asMany, rfl⟩ :=
    TypeForm.eq_within_of_ofText areForms areSizes isEnding isForm
  rw [← asMany]
  refine matches_listed (fun tuple ofTuple => ?_) meant
  rw [AbiType.ofForm?, Option.map_eq_some_iff] at ofTuple
  obtain ⟨types, ofForms, rfl⟩ := ofTuple
  exact allMatch_of_forms each areFormed ofMembers areForms ofForms

/-- The layout of a formed description matches the type that is read for it. -/
theorem matchesRead
    (description : Description) :
    MatchesRead description := by
  induction description using Description.inductionOnMembers with
  | bare | malformed =>
      intro text form type _ _ _ _
      trivial
  | mapping entries components inductionHypothesis =>
      intro text form type isFormed encoded isForm meant
      rw [Description.encodedType] at encoded
      rw [ofDescription]
      cases hasType : Entries.get? entries (.text "type") with
      | none =>
          rw [hasType] at encoded
          cases encoded
      | some value =>
          cases value with
          | text own =>
              rw [hasType] at encoded
              obtain ⟨sizes, ending, asMany, areSizes, isEnding, whole⟩ :=
                Text.hasSuffixes_dropArraySuffixes own.length own
              rw [← Text.arrayBase] at asMany whole
              dsimp only at encoded ⊢
              -- Only a tuple with array suffixes behind it is taken apart.
              by_cases isTuple : (Text.arrayBase own).1 = "tuple"
              · rw [isTuple] at whole
                have isTupleText : Text.dropStart? own "tuple" =
                    some (Text.arraySuffixes sizes ++ ending) := by
                  rw [whole]
                  exact Text.dropStart?_append _ _
                simp only [isTupleText, bind_eq_ok_iff, pure_eq_ok_iff] at encoded
                obtain ⟨texts, ofTexts, rfl⟩ := encoded
                rw [if_pos isTuple, ← asMany]
                cases components with
                | absent | malformed =>
                    cases ofTexts
                | listed members =>
                    rw [Description.componentTypes, Description.encodedTypes_eq_mapM] at ofTexts
                    have areFormed := isFormed own hasType (whole ▸ List.prefix_append _ _)
                    exact matches_tuple (inductionHypothesis members rfl) areFormed ofTexts
                      areSizes isEnding isForm meant
              · rw [if_neg isTuple]
                refine matches_of_isFlat (isFlat_listed ?_ _) type
                split <;> rfl
          | _ =>
              rw [hasType] at encoded
              cases encoded

/-- Described values match the types that are read for them. -/
theorem allMatch_of_ofText
    {descriptions : List Description}
    (areFormed : ∀ description ∈ descriptions, description.IsFormed)
    {texts : List Text}
    (hasTexts : descriptions.mapM Description.ownType = .ok texts)
    {types : List AbiType}
    (read : texts.mapM AbiType.ofText = .ok types) :
    AllMatch (ofDescriptions descriptions) types := by
  induction descriptions generalizing texts types with
  | nil =>
      cases hasTexts
      cases read
      trivial
  | cons description rest inductionHypothesis =>
      simp only [List.mapM_cons, bind_eq_ok_iff, pure_eq_ok_iff] at hasTexts
      obtain ⟨text, hasText, others, hasOthers, rfl⟩ := hasTexts
      simp only [List.mapM_cons, bind_eq_ok_iff, pure_eq_ok_iff] at read
      obtain ⟨type, ofText, otherTypes, ofOthers, rfl⟩ := read
      rw [List.forall_mem_cons] at areFormed
      refine ⟨?_, inductionHypothesis areFormed.2 hasOthers ofOthers⟩
      obtain ⟨form, isForm, meant⟩ := AbiType.form_of_ofText ofText
      have ownForm : TypeForm.ofText text = .ok form := by
        rw [TypeForm.ofText, isForm]
        rfl
      cases description with
      | mapping entries components =>
          exact matchesRead _ text form type areFormed.1 hasText ownForm meant
      | _ =>
          cases hasText

end Layout

end ContractBindings
