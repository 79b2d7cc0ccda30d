import ContractBindings.Proofs.TypeBases

namespace ContractBindings

/-!
# The documented types

The documentation of types lists the bases, of which a tuple needs components with such types
themselves, and lets array suffixes follow.  A parameter is accepted exactly if what is left of
the tree without one line break at the end of each type is documented, and if the numbers that
it holds are within the limits of the program.

Main statement: the type expression of an accepted parameter is the documented one, and any
other parameter is rejected for the first thing that is wrong with it, in the order in which
the tree is written.
-/

namespace Parameter

mutual

/-- The parameter without one line break at the end of its type and of the types of its
components. -/
def withoutLineBreaks : Parameter → Parameter
  | ⟨name, type, components, internalType⟩ =>
      ⟨name, Text.dropLineBreak type, componentsWithoutLineBreaks components, internalType⟩

def componentsWithoutLineBreaks : Option (List Parameter) → Option (List Parameter)
  | none => none
  | some components => some (allWithoutLineBreaks components)

/-- The parameters without one line break at the end of each of their types. -/
def allWithoutLineBreaks : List Parameter → List Parameter
  | [] => []
  | parameter :: rest => parameter.withoutLineBreaks :: allWithoutLineBreaks rest

end

theorem allWithoutLineBreaks_eq_map
    (parameters : List Parameter) :
    allWithoutLineBreaks parameters = parameters.map withoutLineBreaks := by
  induction parameters with
  | nil =>
      rfl
  | cons parameter parameters inductionHypothesis =>
      rw [allWithoutLineBreaks, inductionHypothesis, List.map_cons]

theorem components_withoutLineBreaks
    (parameter : Parameter) :
    parameter.withoutLineBreaks.components =
      parameter.components.map (·.map withoutLineBreaks) := by
  obtain ⟨name, type, components, internalType⟩ := parameter
  rw [withoutLineBreaks]
  cases components with
  | none =>
      rfl
  | some components =>
      exact congrArg some (allWithoutLineBreaks_eq_map components)

@[simp]
theorem type_withoutLineBreaks
    (parameter : Parameter) :
    parameter.withoutLineBreaks.type = Text.dropLineBreak parameter.type := by
  obtain ⟨name, type, components, internalType⟩ := parameter
  rw [withoutLineBreaks]

theorem keys_withoutLineBreaks
    (parameters : List Parameter) :
    keys (parameters.map withoutLineBreaks) = keys parameters := by
  have sameName : (fun parameter : Parameter => parameter.name) ∘ withoutLineBreaks =
      fun parameter => parameter.name := by
    funext ⟨name, type, components, internalType⟩
    rw [Function.comp_apply, withoutLineBreaks]
  rw [keys, keys, List.map_map, sameName]

end Parameter

namespace TypeExpression

/-- The parameters that the documentation describes, with their type expressions.  As many
lists as there are array suffixes stand around the type of the base, which is a record for
a tuple. -/
inductive Documented : Parameter → TypeExpression → Prop where
  | integer
      {parameter : Parameter}
      {base digits : Text}
      {isUnsigned : Bool}
      {sizes : List Text}
      (written : parameter.type = base ++ Text.arraySuffixes sizes)
      (areSizes : ∀ size ∈ sizes, ∀ c ∈ size, c.isDecimalDigit = true)
      (stands : StandsFor base (.integer isUnsigned digits)) :
      Documented parameter (listed (integer isUnsigned (widthOf digits)) sizes.length)
  | plain
      {parameter : Parameter}
      {base : Text}
      {element : TypeExpression}
      {sizes : List Text}
      (written : parameter.type = base ++ Text.arraySuffixes sizes)
      (areSizes : ∀ size ∈ sizes, ∀ c ∈ size, c.isDecimalDigit = true)
      (stands : StandsFor base (.plain element)) :
      Documented parameter (listed element sizes.length)
  | tuple
      {parameter : Parameter}
      {base : Text}
      {sizes : List Text}
      {components : List Parameter}
      {types : List TypeExpression}
      (written : parameter.type = base ++ Text.arraySuffixes sizes)
      (areSizes : ∀ size ∈ sizes, ∀ c ∈ size, c.isDecimalDigit = true)
      (stands : StandsFor base .tuple)
      (hasComponents : parameter.components = some components)
      (notEmpty : components ≠ [])
      (areTypes : List.Forall₂ Documented components types) :
      Documented parameter
        (listed (.record ((Parameter.keys components).zip types)) sizes.length)

theorem Documented.oneLine
    {parameter : Parameter}
    {type : TypeExpression}
    (documented : Documented parameter type) :
    ∀ c ∈ parameter.type, c ≠ '\n' := by
  cases documented with
  | integer written areSizes stands =>
      rw [written]
      exact List.forall_mem_append.mpr ⟨stands.oneLine.1, Text.oneLine_arraySuffixes areSizes⟩
  | plain written areSizes stands =>
      rw [written]
      exact List.forall_mem_append.mpr ⟨stands.oneLine.1, Text.oneLine_arraySuffixes areSizes⟩
  | tuple written areSizes stands =>
      rw [written]
      exact List.forall_mem_append.mpr ⟨stands.oneLine.1, Text.oneLine_arraySuffixes areSizes⟩

theorem Documented.withoutLineBreaks
    {parameter : Parameter}
    {type : TypeExpression}
    (documented : Documented parameter type) :
    Documented parameter.withoutLineBreaks type := by
  induction parameter using Parameter.inductionOnMembers generalizing type with
  | step parameter each =>
      have sameType : parameter.withoutLineBreaks.type = parameter.type := by
        rw [Parameter.type_withoutLineBreaks, Text.dropLineBreak_of_oneLine documented.oneLine]
      cases documented with
      | integer written areSizes stands =>
          exact .integer (sameType.trans written) areSizes stands
      | plain written areSizes stands =>
          exact .plain (sameType.trans written) areSizes stands
      | @tuple _ _ _ components _ written areSizes stands hasComponents notEmpty areTypes =>
          have areMembers : parameter.withoutLineBreaks.components =
              some (components.map Parameter.withoutLineBreaks) := by
            rw [Parameter.components_withoutLineBreaks, hasComponents]
            rfl
          rw [← Parameter.keys_withoutLineBreaks]
          refine .tuple (sameType.trans written) areSizes stands areMembers
            (by simpa using notEmpty) (List.forall₂_map_left_iff.mpr ?_)
          exact ((List.forall₂_and_left _ _).mpr ⟨each components hasComponents, areTypes⟩).imp
            fun component type ⟨ofComponent, isDocumented⟩ => ofComponent isDocumented

/-- The numbers that a parameter holds are within the limits of the program: those of its array
suffixes, of the digits of a width, and of the components of a tuple. -/
inductive WithinLimits : Parameter → Prop where
  | intro
      {parameter : Parameter}
      {base : Text}
      {count : Nat}
      (hasBase : Text.HasBase parameter.type base count)
      (shallow : count ≤ greatestNesting)
      (narrow :
        ∀ isUnsigned digits,
          StandsFor (Text.dropLineBreak base) (.integer isUnsigned digits) →
            digits.length ≤ maxWidthDigits)
      (inside :
        StandsFor (Text.dropLineBreak base) .tuple →
          ∀ components, parameter.components = some components →
            ∀ component ∈ components, WithinLimits component) :
      WithinLimits parameter

/-- A parameter is accepted with a type expression if it has that expression by the
documentation, line breaks at the ends of types apart, and is within the limits. -/
def Accepts (parameter : Parameter) (type : TypeExpression) : Prop :=
  Documented parameter.withoutLineBreaks type ∧ WithinLimits parameter

/-- The first thing that is wrong with a parameter, where components are looked at one after
another, and what comes of it.  The description is that of the innermost element. -/
inductive FirstOffence (place : Option Place) : Entries → Parameter → BindingFailure → Prop where
  | tooNested
      {marks : Entries}
      {parameter : Parameter}
      {base : Text}
      {count : Nat}
      (hasBase : Text.HasBase parameter.type base count)
      (deep : greatestNesting < count) :
      FirstOffence place marks parameter (.fault .tooNested)
  | tooWide
      {marks : Entries}
      {parameter : Parameter}
      {base digits : Text}
      {count : Nat}
      {isUnsigned : Bool}
      (hasBase : Text.HasBase parameter.type base count)
      (shallow : count ≤ greatestNesting)
      (stands : StandsFor (Text.dropLineBreak base) (.integer isUnsigned digits))
      (wide : maxWidthDigits < digits.length) :
      FirstOffence place marks parameter (.fault .badValue)
  | unsupported
      {marks : Entries}
      {parameter : Parameter}
      {base : Text}
      {count : Nat}
      {objection : Objection}
      (hasBase : Text.HasBase parameter.type base count)
      (shallow : count ≤ greatestNesting)
      (stands : StandsFor (Text.dropLineBreak base) (.objection objection)) :
      FirstOffence place marks parameter
        (.rejected ⟨objection, place, { parameter with type := base }.describeWith marks⟩)
  | unrecognized
      {marks : Entries}
      {parameter : Parameter}
      {base : Text}
      {count : Nat}
      (hasBase : Text.HasBase parameter.type base count)
      (shallow : count ≤ greatestNesting)
      (nothing : ∀ meaning, ¬ StandsFor (Text.dropLineBreak base) meaning) :
      FirstOffence place marks parameter
        (.rejected
          ⟨.unrecognized base, place, { parameter with type := base }.describeWith marks⟩)
  | malformedTuple
      {marks : Entries}
      {parameter : Parameter}
      {base : Text}
      {count : Nat}
      (hasBase : Text.HasBase parameter.type base count)
      (shallow : count ≤ greatestNesting)
      (stands : StandsFor (Text.dropLineBreak base) .tuple)
      (noComponents : parameter.components.getD [] = []) :
      FirstOffence place marks parameter
        (.rejected
          ⟨.malformedTuple base, place, { parameter with type := base }.describeWith marks⟩)
  | component
      {marks : Entries}
      {parameter component : Parameter}
      {base : Text}
      {count : Nat}
      {before after : List Parameter}
      {failure : BindingFailure}
      (hasBase : Text.HasBase parameter.type base count)
      (shallow : count ≤ greatestNesting)
      (stands : StandsFor (Text.dropLineBreak base) .tuple)
      (hasComponents : parameter.components = some (before ++ component :: after))
      (accepted : ∀ earlier ∈ before, ∃ type, Accepts earlier type)
      (offends : FirstOffence place [] component failure) :
      FirstOffence place marks parameter failure

theorem ofParameters_eq_mapM
    (place : Option Place)
    (next : Nat)
    (parameters : List Parameter) :
    ofParameters place next parameters =
      (parameters.mapM (ofParameter place [])).map fun types =>
        (Parameter.fillNames Parameter.standIn (! ·.isEmpty) next
          (parameters.map (·.name))).zip types := by
  induction parameters generalizing next with
  | nil =>
      rfl
  | cons parameter parameters inductionHypothesis =>
      rw [ofParameters, List.mapM_cons, List.map_cons, Parameter.fillNames]
      cases ofFirst : ofParameter place [] parameter with
      | error failure =>
          rfl
      | ok type =>
          cases unnamed : parameter.name.isEmpty <;>
            simp only [bind, Except.bind, inductionHypothesis] <;>
            cases parameters.mapM (ofParameter place []) <;>
            rfl

section Base

variable {place : Option Place}
variable {marks : Entries}
variable {parameter : Parameter}
variable {base : Text}
variable {count : Nat}

theorem ofParameter_tooNested
    (hasBase : Text.HasBase parameter.type base count)
    (deep : greatestNesting < count) :
    ofParameter place marks parameter = .error (.fault .tooNested) := by
  obtain ⟨name, type, components, internalType⟩ := parameter
  have isBase : Text.arrayBase type = (base, count) := Text.arrayBase_of_hasBase hasBase
  rw [ofParameter, isBase]
  exact if_pos deep

theorem ofParameter_integer
    (hasBase : Text.HasBase parameter.type base count)
    (shallow : count ≤ greatestNesting)
    {isUnsigned : Bool}
    {digits : Text}
    (stands : StandsFor (Text.dropLineBreak base) (.integer isUnsigned digits)) :
    ofParameter place marks parameter =
      if maxWidthDigits < digits.length then .error (.fault .badValue)
      else .ok (listed (integer isUnsigned (widthOf digits)) count) := by
  obtain ⟨name, type, components, internalType⟩ := parameter
  have isBase : Text.arrayBase type = (base, count) := Text.arrayBase_of_hasBase hasBase
  rw [ofParameter, isBase]
  simp only [readBase_of_standsFor stands, Nat.not_lt.mpr shallow, ↓reduceIte]
  cases digits <;> rfl

theorem ofParameter_plain
    (hasBase : Text.HasBase parameter.type base count)
    (shallow : count ≤ greatestNesting)
    {element : TypeExpression}
    (stands : StandsFor (Text.dropLineBreak base) (.plain element)) :
    ofParameter place marks parameter = .ok (listed element count) := by
  obtain ⟨name, type, components, internalType⟩ := parameter
  have isBase : Text.arrayBase type = (base, count) := Text.arrayBase_of_hasBase hasBase
  rw [ofParameter, isBase]
  simp only [readBase_of_standsFor stands, Nat.not_lt.mpr shallow, ↓reduceIte]

theorem ofParameter_objection
    (hasBase : Text.HasBase parameter.type base count)
    (shallow : count ≤ greatestNesting)
    {objection : Objection}
    (objects : readBase base = .objection objection) :
    ofParameter place marks parameter =
      .error (.rejected
        ⟨objection, place, { parameter with type := base }.describeWith marks⟩) := by
  obtain ⟨name, type, components, internalType⟩ := parameter
  have isBase : Text.arrayBase type = (base, count) := Text.arrayBase_of_hasBase hasBase
  rw [ofParameter, isBase]
  simp only [objects, Nat.not_lt.mpr shallow, ↓reduceIte]

theorem ofParameter_tuple
    (hasBase : Text.HasBase parameter.type base count)
    (shallow : count ≤ greatestNesting)
    (stands : StandsFor (Text.dropLineBreak base) .tuple) :
    ofParameter place marks parameter =
      ((parameter.components.getD []).mapM (ofParameter place [])) >>= fun types =>
        if parameter.components.getD [] = [] then
          .error (.rejected
            ⟨.malformedTuple base, place, { parameter with type := base }.describeWith marks⟩)
        else
          .ok (listed
            (.record ((Parameter.keys (parameter.components.getD [])).zip types)) count) := by
  obtain ⟨name, type, components, internalType⟩ := parameter
  have isBase : Text.arrayBase type = (base, count) := Text.arrayBase_of_hasBase hasBase
  have ofFields : ofComponents place components =
      ((components.getD []).mapM (ofParameter place [])).map
        ((Parameter.keys (components.getD [])).zip ·) := by
    cases components with
    | none =>
        rfl
    | some components =>
        rw [ofComponents, ofParameters_eq_mapM]
        rfl
  rw [ofParameter, isBase]
  simp only [readBase_of_standsFor stands, Nat.not_lt.mpr shallow, ↓reduceIte, ofFields]
  cases ofTypes : (components.getD []).mapM (ofParameter place []) with
  | error failure =>
      rfl
  | ok types =>
      have asMany := length_of_mapM ofTypes
      cases areMembers : components.getD [] with
      | nil =>
          rfl
      | cons member members =>
          rw [areMembers] at asMany
          have notNil : (Parameter.keys (member :: members)).zip types ≠ [] := by
            intro isNil
            have none := congrArg List.length isNil
            rw [List.length_zip, Parameter.keys, Parameter.length_fillNames, List.length_map,
              asMany, min_self] at none
            cases none
          obtain ⟨field, fields, isCons⟩ := List.exists_cons_of_ne_nil notNil
          simp only [bind, Except.bind, Except.map, isCons, List.cons_ne_nil, ↓reduceIte]

end Base

/-- A type with a documented base and suffixes has a base that means the same, with as many
suffixes. -/
theorem base_of_written
    {parameter : Parameter}
    {text base : Text}
    {count : Nat}
    {meaning : Base}
    {sizes : List Text}
    (hasBase : Text.HasBase parameter.type base count)
    (written : parameter.withoutLineBreaks.type = text ++ Text.arraySuffixes sizes)
    (areSizes : ∀ size ∈ sizes, ∀ c ∈ size, c.isDecimalDigit = true)
    (stands : StandsFor text meaning) :
    count = sizes.length ∧ StandsFor (Text.dropLineBreak base) meaning := by
  rw [Parameter.type_withoutLineBreaks] at written
  obtain ⟨rest, hasRest, isText⟩ :=
    Text.exists_hasBase_of_suffixes stands.oneLine.1 stands.oneLine.2 areSizes written
  obtain ⟨rfl, rfl⟩ := Prod.mk.inj
    ((Text.arrayBase_of_hasBase hasBase).symm.trans (Text.arrayBase_of_hasBase hasRest))
  exact ⟨rfl, isText ▸ stands⟩

/-- An accepted parameter is mapped to its type expression. -/
theorem ofParameter_of_accepts
    {parameter : Parameter}
    {type : TypeExpression}
    (accepted : Accepts parameter type)
    (place : Option Place)
    (marks : Entries) :
    ofParameter place marks parameter = .ok type := by
  obtain ⟨documented, limits⟩ := accepted
  induction limits generalizing type marks with
  | @intro parameter base count hasBase shallow narrow _ inductionHypothesis =>
      cases documented with
      | integer written areSizes stands =>
          obtain ⟨rfl, means⟩ := base_of_written hasBase written areSizes stands
          rw [ofParameter_integer hasBase shallow means,
            if_neg (Nat.not_lt.mpr (narrow _ _ means))]
      | plain written areSizes stands =>
          obtain ⟨rfl, means⟩ := base_of_written hasBase written areSizes stands
          exact ofParameter_plain hasBase shallow means
      | tuple written areSizes stands hasComponents notEmpty areTypes =>
          obtain ⟨rfl, means⟩ := base_of_written hasBase written areSizes stands
          rw [Parameter.components_withoutLineBreaks, Option.map_eq_some_iff] at hasComponents
          obtain ⟨components, hasComponents, rfl⟩ := hasComponents
          rw [List.forall₂_map_left_iff] at areTypes
          have each := inductionHypothesis means components hasComponents
          have mapped : components.mapM (ofParameter place []) = .ok _ :=
            mapM_eq_ok_iff.mpr <| ((List.forall₂_and_left _ _).mpr ⟨each, areTypes⟩).imp
              fun component type ⟨ofComponent, isDocumented⟩ => ofComponent [] isDocumented
          rw [ofParameter_tuple hasBase shallow means, hasComponents, Option.getD_some, mapped,
            Parameter.keys_withoutLineBreaks]
          exact if_neg (by simpa using notEmpty)

/-- What the documentation describes is accepted within the limits. -/
theorem ofParameter_of_documented
    {parameter : Parameter}
    {type : TypeExpression}
    (documented : Documented parameter type)
    (limits : WithinLimits parameter)
    (place : Option Place)
    (marks : Entries) :
    ofParameter place marks parameter = .ok type :=
  ofParameter_of_accepts ⟨documented.withoutLineBreaks, limits⟩ place marks

/-- A parameter with an offence is rejected for its first one. -/
theorem ofParameter_of_firstOffence
    {place : Option Place}
    {marks : Entries}
    {parameter : Parameter}
    {failure : BindingFailure}
    (offends : FirstOffence place marks parameter failure) :
    ofParameter place marks parameter = .error failure := by
  induction offends with
  | tooNested hasBase deep =>
      exact ofParameter_tooNested hasBase deep
  | tooWide hasBase shallow stands wide =>
      rw [ofParameter_integer hasBase shallow stands, if_pos wide]
  | unsupported hasBase shallow stands =>
      exact ofParameter_objection hasBase shallow (readBase_of_standsFor stands)
  | unrecognized hasBase shallow nothing =>
      exact ofParameter_objection hasBase shallow (readBase_eq_iff.mpr (Or.inr ⟨nothing, rfl⟩))
  | malformedTuple hasBase shallow stands noComponents =>
      rw [ofParameter_tuple hasBase shallow stands, noComponents]
      rfl
  | component hasBase shallow stands hasComponents accepted _ inductionHypothesis =>
      have succeed := fun earlier member =>
        (accepted earlier member).imp fun _ accepts => ofParameter_of_accepts accepts place []
      rw [ofParameter_tuple hasBase shallow stands, hasComponents, Option.getD_some,
        mapM_eq_error succeed inductionHypothesis]
      rfl

/-- A base that stands for one thing stands for no other, so that the limits are its own. -/
theorem WithinLimits.of_standsFor
    {parameter : Parameter}
    {base : Text}
    {count : Nat}
    {meaning : Base}
    (hasBase : Text.HasBase parameter.type base count)
    (shallow : count ≤ greatestNesting)
    (stands : StandsFor (Text.dropLineBreak base) meaning)
    (narrow :
      ∀ isUnsigned digits, meaning = .integer isUnsigned digits → digits.length ≤ maxWidthDigits)
    (inside :
      meaning = .tuple → ∀ components, parameter.components = some components →
        ∀ component ∈ components, WithinLimits component) :
    WithinLimits parameter :=
  .intro hasBase shallow
    (fun isUnsigned digits standsForInteger =>
      narrow isUnsigned digits (stands.unique standsForInteger))
    (fun standsForTuple => inside (stands.unique standsForTuple))

theorem accepts_or_offends_tuple
    {place : Option Place}
    {parameter : Parameter}
    (each :
      ∀ components, parameter.components = some components →
        ∀ component ∈ components,
          (∃ type, Accepts component type) ∨
            ∃ failure, FirstOffence place [] component failure)
    {base : Text}
    {sizes : List Text}
    (hasBase : Text.HasBase parameter.type base sizes.length)
    (shallow : sizes.length ≤ greatestNesting)
    (written :
      parameter.withoutLineBreaks.type = Text.dropLineBreak base ++ Text.arraySuffixes sizes)
    (areSizes : ∀ size ∈ sizes, ∀ c ∈ size, c.isDecimalDigit = true)
    (stands : StandsFor (Text.dropLineBreak base) .tuple)
    (marks : Entries) :
    (∃ type, Accepts parameter type) ∨
      ∃ failure, FirstOffence place marks parameter failure := by
  by_cases noComponents : parameter.components.getD [] = []
  · exact Or.inr ⟨_, .malformedTuple hasBase shallow stands noComponents⟩
  cases hasComponents : parameter.components with
  | none =>
      rw [hasComponents] at noComponents
      exact absurd rfl noComponents
  | some components =>
      rw [hasComponents, Option.getD_some] at noComponents
      rcases forall₂_or_first (each components hasComponents) with
        ⟨types, areAccepted⟩ | ⟨before, component, after, rfl, accepted, failure, offends⟩
      · have areMembers : parameter.withoutLineBreaks.components =
            some (components.map Parameter.withoutLineBreaks) := by
          rw [Parameter.components_withoutLineBreaks, hasComponents]
          rfl
        have documented :
            List.Forall₂ Documented (components.map Parameter.withoutLineBreaks) types :=
          List.forall₂_map_left_iff.mpr (areAccepted.imp fun _ _ accepts => accepts.1)
        refine Or.inl ⟨_, .tuple written areSizes stands areMembers (by simpa using noComponents)
          documented, .of_standsFor hasBase shallow stands nofun ?_⟩
        rintro - _ areSame component member
        cases hasComponents.symm.trans areSame
        obtain ⟨type, -, accepts⟩ := exists_of_forall₂ areAccepted.flip member
        exact accepts.2
      · exact Or.inr ⟨failure, .component hasBase shallow stands hasComponents accepted offends⟩

/-- Every parameter is accepted or has a first offence. -/
theorem accepts_or_offends
    (place : Option Place)
    (marks : Entries)
    (parameter : Parameter) :
    (∃ type, Accepts parameter type) ∨
      ∃ failure, FirstOffence place marks parameter failure := by
  induction parameter using Parameter.inductionOnMembers generalizing marks with
  | step parameter each =>
      obtain ⟨base, count, hasBase⟩ := Text.exists_hasBase parameter.type
      by_cases shallow : count ≤ greatestNesting
      case neg =>
        exact Or.inr ⟨_, .tooNested hasBase (Nat.lt_of_not_le shallow)⟩
      obtain ⟨sizes, rfl, areSizes, written⟩ := hasBase.exists_sizes
      rw [← Parameter.type_withoutLineBreaks] at written
      by_cases nothing : ∀ meaning, ¬ StandsFor (Text.dropLineBreak base) meaning
      · exact Or.inr ⟨_, .unrecognized hasBase shallow nothing⟩
      obtain ⟨meaning, stands⟩ := not_forall_not.mp nothing
      cases meaning with
      | objection objection =>
          exact Or.inr ⟨_, .unsupported hasBase shallow stands⟩
      | integer isUnsigned digits =>
          by_cases wide : maxWidthDigits < digits.length
          · exact Or.inr ⟨_, .tooWide hasBase shallow stands wide⟩
          · refine Or.inl ⟨_, .integer written areSizes stands,
              .of_standsFor hasBase shallow stands ?_ nofun⟩
            rintro _ _ ⟨⟩
            exact Nat.le_of_not_lt wide
      | plain element =>
          exact Or.inl ⟨_, .plain written areSizes stands,
            .of_standsFor hasBase shallow stands nofun nofun⟩
      | tuple =>
          exact accepts_or_offends_tuple
            (fun components hasComponents component member =>
              each components hasComponents component member [])
            hasBase shallow written areSizes stands marks

/-- The type expressions of accepted parameters are the documented ones, and the others are
rejected for their first offence. -/
theorem ofParameter_eq_iff
    (place : Option Place)
    (marks : Entries)
    (parameter : Parameter) :
    (∀ type, ofParameter place marks parameter = .ok type ↔ Accepts parameter type) ∧
      ∀ failure,
        ofParameter place marks parameter = .error failure ↔
          FirstOffence place marks parameter failure := by
  refine ⟨fun type =>
      ⟨fun mapped => ?_, fun accepted => ofParameter_of_accepts accepted place marks⟩,
    fun failure => ⟨fun rejected => ?_, ofParameter_of_firstOffence⟩⟩
  · rcases accepts_or_offends place marks parameter with ⟨other, accepted⟩ | ⟨failure, offends⟩
    · rw [ofParameter_of_accepts accepted place marks] at mapped
      cases mapped
      exact accepted
    · rw [ofParameter_of_firstOffence offends] at mapped
      cases mapped
  · rcases accepts_or_offends place marks parameter with ⟨other, accepted⟩ | ⟨failure, offends⟩
    · rw [ofParameter_of_accepts accepted place marks] at rejected
      cases rejected
    · rw [ofParameter_of_firstOffence offends] at rejected
      cases rejected
      exact offends

/-- A line break at the end of a type is not documented, and does not count. -/
theorem ofParameter_lineBreak :
    ofParameter none [] ⟨"x", "uint256\n", none, none⟩ = .ok (.branded "UInt256") ∧
      ∀ type, ¬ Documented ⟨"x", "uint256\n", none, none⟩ type := by
  constructor
  · have isExpression : integer true 256 = .branded "UInt256" := by
      decide +kernel
    rw [← isExpression, ofParameter]
    rfl
  · exact fun type documented => documented.oneLine '\n' (by decide) rfl

end TypeExpression

end ContractBindings
