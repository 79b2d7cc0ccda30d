import ContractBindings.Proofs.DeclaredParameters
import ContractBindings.Proofs.WrittenTypes

namespace ContractBindings

/-!
# Types that are accepted twice

A parameter that is mapped to a type expression and whose encoded type is read at
all declares a type: the expression is the one of the declared type, and the form
that is read is that of its signature.  The induction runs over the components of
the parameter; since a component is followed by others, it is carried out for any
text that can stand behind a type.
-/

namespace ScalarType

/-- The type expression of values of the type. -/
def expression : ScalarType → TypeExpression
  | .uint width => .integer true (width.getD 256)
  | .int width => .integer false (width.getD 256)
  | .address => .named "Address"
  | .bool => .named "bool"
  | .fixedBytes size => .named ("Bytes" ++ Text.ofNat size)
  | .bytes => .named "Bytes"
  | .string => .named "str"

end ScalarType

namespace TypeExpression

theorem listed_list
    (element : TypeExpression)
    (count : Nat) :
    listed (.list element) count = listed element (count + 1) := by
  induction count with
  | zero =>
      rfl
  | succ count inductionHypothesis =>
      rw [listed, inductionHypothesis, listed, listed, listed]

end TypeExpression

namespace DeclaredType

mutual

/-- The type expression of values of the type. -/
def expression : DeclaredType → TypeExpression
  | .scalar type => type.expression
  | .array element _ => .list element.expression
  | .tuple components => .record ((keys components).zip (expressions components))

/-- The type expressions of the values of declarations. -/
def expressions : Declarations → List TypeExpression
  | [] => []
  | (_, type) :: rest => type.expression :: expressions rest

end

/-- A type with arrays around it, the innermost array first. -/
def arrays (stem : DeclaredType) (sizes : List (Option Nat)) : DeclaredType :=
  sizes.foldl .array stem

theorem text_arrays
    (stem : DeclaredType)
    (sizes : List (Option Nat)) :
    (stem.arrays sizes).text = stem.text ++ TypeForm.suffixes sizes := by
  induction sizes generalizing stem with
  | nil =>
      simp [arrays, TypeForm.suffixes]
  | cons size sizes inductionHypothesis =>
      have others := inductionHypothesis (.array stem size)
      rw [text, List.append_assoc] at others
      exact others

theorem form_arrays
    (stem : DeclaredType)
    (sizes : List (Option Nat)) :
    (stem.arrays sizes).form = stem.form.within sizes := by
  induction sizes generalizing stem with
  | nil =>
      rfl
  | cons size sizes inductionHypothesis =>
      exact inductionHypothesis (.array stem size)

theorem expression_arrays
    (stem : DeclaredType)
    (sizes : List (Option Nat)) :
    (stem.arrays sizes).expression = TypeExpression.listed stem.expression sizes.length := by
  induction sizes generalizing stem with
  | nil =>
      rfl
  | cons size sizes inductionHypothesis =>
      have others := inductionHypothesis (.array stem size)
      rw [expression, TypeExpression.listed_list] at others
      exact others

theorem isValid_arrays
    (stem : DeclaredType)
    (valid : stem.isValid = true)
    {sizes : List (Option Nat)}
    (notZero : ∀ size ∈ sizes, size ≠ some 0) :
    (stem.arrays sizes).isValid = true := by
  induction sizes generalizing stem with
  | nil =>
      exact valid
  | cons size sizes inductionHypothesis =>
      rw [List.forall_mem_cons] at notZero
      exact inductionHypothesis (.array stem size) (isValid_array_iff.mpr ⟨valid, notZero.1⟩)
        notZero.2

theorem has_arrays
    (stem : DeclaredType)
    {components : Option (List Parameter)}
    (has : stem.Has components)
    (sizes : List (Option Nat)) :
    (stem.arrays sizes).Has components := by
  induction sizes generalizing stem with
  | nil =>
      exact has
  | cons size sizes inductionHypothesis =>
      exact inductionHypothesis (.array stem size) has

end DeclaredType

namespace Text

theorem arraySuffixes_digits
    (numbers : List (Option Nat)) :
    arraySuffixes (numbers.map ScalarType.digits) = TypeForm.suffixes numbers := by
  rw [arraySuffixes, List.flatMap_map]
  rfl

end Text

namespace AbiType

theorem ofForm?_element
    {element : TypeForm}
    {size : Option Text}
    {type : AbiType}
    (meant : ofForm? (.array element size) = some type) :
    ∃ elementType, ofForm? element = some elementType := by
  rw [ofForm?, Option.map_eq_some_iff] at meant
  obtain ⟨elementType, ofElement, -⟩ := meant
  exact ⟨elementType, ofElement⟩

theorem ofForm?_of_within
    {form : TypeForm}
    {sizes : List (Option Nat)}
    {type : AbiType}
    (meant : ofForm? (form.within sizes) = some type) :
    ∃ element, ofForm? form = some element := by
  induction sizes generalizing form with
  | nil =>
      exact ⟨type, meant⟩
  | cons size sizes inductionHypothesis =>
      obtain ⟨array, ofArray⟩ : ∃ array, ofForm? (.array form (size.map Text.ofNat)) = some array :=
        inductionHypothesis meant
      exact ofForm?_element ofArray

/-- A form with the suffixes behind it means a type only if the form does. -/
theorem ofForm?_of_readSuffixes
    {fuel : Nat}
    {element form : TypeForm}
    {t left : Text}
    (read : TypeForm.readSuffixes fuel element t = (form, left))
    {type : AbiType}
    (meant : ofForm? form = some type) :
    ∃ elementType, ofForm? element = some elementType := by
  induction fuel generalizing element t with
  | zero =>
      cases read
      exact ⟨type, meant⟩
  | succ fuel inductionHypothesis =>
      rw [TypeForm.readSuffixes] at read
      repeat' split at read
      all_goals first
        | exact (inductionHypothesis read).elim fun _ ofArray => ofForm?_element ofArray
        | cases read
          exact ⟨type, meant⟩

end AbiType

namespace TypeExpression

/-- A base that is a word with decimal digits behind it, and not that of a tuple.  If the
digits are those of a size, and word and size mean a type, then this is a scalar type of
the given expression. -/
def WritesScalar (base : Text) (expression : TypeExpression) : Prop :=
  ∃ (first : CodePoint) (letters digits : Text),
    base = first :: letters ++ digits ∧ first ≠ 't' ∧
      (first :: letters).all CodePoint.isAsciiLetter = true ∧
        (∀ c ∈ digits, c.isDecimalDigit = true) ∧
          ∀ width type, digits = ScalarType.digits width → width ≠ some 0 →
            AbiType.ofWord? (first :: letters) (ScalarType.sizes width) = some type →
              ∃ scalar : ScalarType,
                scalar.isValid = true ∧ scalar.text = base ∧ scalar.expression = expression ∧
                  scalar.form = .word (first :: letters) (ScalarType.sizes width)

/-- The word of integers of a kind. -/
def integerWord (isUnsigned : Bool) : Text :=
  if isUnsigned then "uint" else "int"

theorem append_of_integerDigits?
    {base digits : Text}
    {isUnsigned : Bool}
    (found : integerDigits? base = some (isUnsigned, digits)) :
    base = integerWord isUnsigned ++ digits ∧ ∀ c ∈ digits, c.isDecimalDigit = true := by
  have behindInt :
      ∀ {sign : Bool} {rest others : Text},
        Text.dropStart? rest "int" = some others →
          (if others.all CodePoint.isDecimalDigit then some (sign, others) else none) =
            some (isUnsigned, digits) →
          sign = isUnsigned ∧ rest = "int" ++ digits ∧ ∀ c ∈ digits, c.isDecimalDigit = true := by
    intro sign rest others dropped found
    split at found
    case isTrue areDigits =>
      cases found
      exact ⟨rfl, Text.eq_append_of_dropStart? dropped, List.all_eq_true.mp areDigits⟩
    case isFalse =>
      cases found
  rw [integerDigits?] at found
  cases unsigned : Text.dropStart? base "u" with
  | none =>
      simp only [unsigned] at found
      split at found
      case h_1 others dropped =>
        obtain ⟨rfl, written, areDigits⟩ := behindInt dropped found
        exact ⟨written, areDigits⟩
      case h_2 =>
        cases found
  | some rest =>
      simp only [unsigned] at found
      split at found
      case h_1 others dropped =>
        obtain ⟨rfl, written, areDigits⟩ := behindInt dropped found
        rw [Text.eq_append_of_dropStart? unsigned, written]
        exact ⟨rfl, areDigits⟩
      case h_2 =>
        cases found

/-- The width that the digits of an integer type write, where 256 is left out. -/
def widthOf : (digits : Text) → Nat
  | [] => 256
  | digits => (Text.decimalValue? digits).getD 0

theorem widthOf_digits
    (width : Option Nat) :
    widthOf (ScalarType.digits width) = width.getD 256 := by
  cases width with
  | none =>
      rfl
  | some n =>
      obtain ⟨first, others, written, -⟩ := Text.ofNat_eq_cons n
      have value := Text.decimalValue?_ofNat n
      rw [written] at value
      simp only [ScalarType.digits, Option.map_some, Option.getD_some, written, widthOf, value]

theorem isWidth_of_ofWord?
    (isUnsigned : Bool)
    {width : Option Nat}
    {type : AbiType}
    (meant : AbiType.ofWord? (integerWord isUnsigned) (ScalarType.sizes width) = some type) :
    width.all AbiType.isWidth = true := by
  cases width with
  | none =>
      rfl
  | some n =>
      rw [ScalarType.sizes, AbiType.ofWord?, Text.numberOf_ofNat, AbiType.ofSizedWord?] at meant
      rw [Option.all_some]
      by_contra notWidth
      cases isUnsigned with
      | true =>
          rw [if_pos (by rfl), if_neg notWidth] at meant
          cases meant
      | false =>
          rw [if_neg (by decide), if_pos (by rfl), if_neg notWidth] at meant
          cases meant

theorem writesScalar_integer
    {base digits : Text}
    {isUnsigned : Bool}
    (found : integerDigits? base = some (isUnsigned, digits)) :
    WritesScalar base (integer isUnsigned (widthOf digits)) := by
  obtain ⟨rfl, areDigits⟩ := append_of_integerDigits? found
  cases isUnsigned with
  | true =>
      refine ⟨'u', "int", digits, rfl, by decide, by decide, areDigits, ?_⟩
      rintro width type rfl - meant
      exact ⟨.uint width, isWidth_of_ofWord? true meant, rfl,
        by rw [widthOf_digits]; rfl, rfl⟩
  | false =>
      refine ⟨'i', "nt", digits, rfl, by decide, by decide, areDigits, ?_⟩
      rintro width type rfl - meant
      exact ⟨.int width, isWidth_of_ofWord? false meant, rfl,
        by rw [widthOf_digits]; rfl, rfl⟩

theorem append_of_bytesDigits?
    {base digits : Text}
    (found : bytesDigits? base = some digits) :
    base = "bytes" ++ digits ∧ digits ≠ [] ∧ ∀ c ∈ digits, c.isDecimalDigit = true := by
  rw [bytesDigits?] at found
  cases dropped : Text.dropStart? base "bytes" with
  | none =>
      simp only [dropped] at found
      cases found
  | some others =>
      simp only [dropped] at found
      split at found
      case isFalse =>
        cases found
      case isTrue areDigits =>
        cases found
        exact ⟨Text.eq_append_of_dropStart? dropped, areDigits.1,
          List.all_eq_true.mp areDigits.2⟩

theorem writesScalar_fixedBytes
    {base digits : Text}
    (found : bytesDigits? base = some digits) :
    WritesScalar base (.named ("Bytes" ++ digits)) := by
  obtain ⟨rfl, isSized, areDigits⟩ := append_of_bytesDigits? found
  refine ⟨'b', "ytes", digits, rfl, by decide, by decide, areDigits, ?_⟩
  intro width type written notZero meant
  cases width with
  | none =>
      exact absurd written isSized
  | some n =>
      have atMost : n ≤ 32 := by
        rw [ScalarType.sizes, AbiType.ofWord?, Text.numberOf_ofNat, AbiType.ofSizedWord?,
          if_neg (by decide), if_neg (by decide), if_pos (by rfl)] at meant
        by_contra tooMany
        rw [if_neg tooMany] at meant
        cases meant
      have atLeast : 1 ≤ n := by
        rw [ne_eq, Option.some.injEq] at notZero
        omega
      exact ⟨.fixedBytes n, by simpa [ScalarType.isValid] using ⟨atLeast, atMost⟩,
        by rw [written]; rfl, by rw [written]; rfl, rfl⟩

/-- A word without a size that a scalar type is written as. -/
theorem writesScalar_word
    (scalar : ScalarType)
    {base : Text}
    (isText : base = scalar.text)
    {first : CodePoint}
    {letters : Text}
    (valid : scalar.isValid = true)
    (written : scalar.text = first :: letters)
    (notTuple : first ≠ 't')
    (areLetters : (first :: letters).all CodePoint.isAsciiLetter = true)
    (hasForm : scalar.form = .word (first :: letters) .none) :
    WritesScalar base scalar.expression := by
  refine ⟨first, letters, [], by rw [isText, written, List.append_nil], notTuple, areLetters,
    by simp, ?_⟩
  intro width type noDigits _ _
  have noWidth : width = none :=
    ScalarType.digits_injective (b := none) noDigits.symm
  subst noWidth
  exact ⟨scalar, valid, isText.symm, rfl, hasForm⟩

/-- The base of an accepted type writes a scalar type, or is that of a tuple. -/
theorem readBase_cases
    (type : Text) :
    match readBase type with
    | .integer isUnsigned digits =>
        WritesScalar (Text.dropLineBreak type) (integer isUnsigned (widthOf digits))
    | .plain expression => WritesScalar (Text.dropLineBreak type) expression
    | .tuple => Text.dropLineBreak type = "tuple"
    | .objection _ => True := by
  rw [readBase]
  generalize Text.dropLineBreak type = base
  cases isInteger : integerDigits? base with
  | some found =>
      exact writesScalar_integer isInteger
  | none =>
      dsimp only
      by_cases isAddress : base = "address"
      · rw [if_pos isAddress]
        exact writesScalar_word (.address) isAddress rfl rfl (by decide) (by decide) rfl
      rw [if_neg isAddress]
      by_cases isBool : base = "bool"
      · rw [if_pos isBool]
        exact writesScalar_word (.bool) isBool rfl rfl (by decide) (by decide) rfl
      rw [if_neg isBool]
      cases isFixedBytes : bytesDigits? base with
      | some digits =>
          exact writesScalar_fixedBytes isFixedBytes
      | none =>
          dsimp only
          by_cases isString : base = "string"
          · rw [if_pos isString]
            exact writesScalar_word (.string) isString rfl rfl (by decide) (by decide) rfl
          rw [if_neg isString]
          by_cases isBytes : base = "bytes"
          · rw [if_pos isBytes]
            exact writesScalar_word (.bytes) isBytes rfl rfl (by decide) (by decide) rfl
          rw [if_neg isBytes]
          by_cases isTuple : base = "tuple"
          · rw [if_pos isTuple]
            exact isTuple
          rw [if_neg isTuple]
          by_cases isFixed : isFixedPoint base = true
          · rw [if_pos isFixed]
            trivial
          rw [if_neg isFixed]
          by_cases isFunction : base = "function"
          · rw [if_pos isFunction]
            trivial
          rw [if_neg isFunction]
          trivial

/-- What the type of an accepted parameter is, as its base is told apart. -/
theorem base_of_ofParameter
    {place : Option Place}
    {marks : Entries}
    {parameter : Parameter}
    {expression : TypeExpression}
    (mapped : ofParameter place marks parameter = .ok expression) :
    ∃ base count element,
      Text.HasSuffixes parameter.type base count ∧ expression = listed element count ∧
        ((∃ isUnsigned digits, readBase base = .integer isUnsigned digits ∧
            element = integer isUnsigned (widthOf digits)) ∨
          readBase base = .plain element ∨
            readBase base = .tuple ∧
              ∃ fields, ofComponents place parameter.components = .ok fields ∧ fields ≠ [] ∧
                element = .record fields) := by
  obtain ⟨name, type, components, internalType⟩ := parameter
  have suffixed := Text.hasSuffixes_dropArraySuffixes type.length type
  rw [ofParameter, Text.arrayBase] at mapped
  generalize Text.dropArraySuffixes type.length type = parts at suffixed mapped
  obtain ⟨base, count⟩ := parts
  dsimp only at suffixed mapped ⊢
  split at mapped
  case isTrue =>
    cases mapped
  case isFalse =>
    split at mapped
    case h_1 isUnsigned digits found =>
      split at mapped
      case isTrue =>
        cases mapped
      case isFalse =>
        cases mapped
        refine ⟨base, count, integer isUnsigned (widthOf digits), suffixed, ?_,
          Or.inl ⟨isUnsigned, digits, found, rfl⟩⟩
        cases digits <;> rfl
    case h_2 found =>
      cases mapped
      exact ⟨base, count, _, suffixed, rfl, Or.inr (Or.inl found)⟩
    case h_3 found =>
      rw [bind_eq_ok_iff] at mapped
      obtain ⟨fields, ofFields, mapped⟩ := mapped
      cases fields with
      | nil =>
          cases mapped
      | cons field others =>
          cases mapped
          exact ⟨base, count, _, suffixed, rfl,
            Or.inr (Or.inr ⟨found, field :: others, ofFields, by simp, rfl⟩)⟩
    case h_4 =>
      cases mapped

/-- A tuple that has fields has components. -/
theorem exists_members_of_ofComponents
    {place : Option Place}
    {components : Option (List Parameter)}
    {fields : RecordFields}
    (ofFields : ofComponents place components = .ok fields)
    (notEmpty : fields ≠ []) :
    ∃ members, components = some members ∧ ofParameters place 1 members = .ok fields := by
  cases components with
  | none =>
      cases ofFields
      exact absurd rfl notEmpty
  | some members =>
      exact ⟨members, rfl, ofFields⟩

/-- What the type of an accepted parameter is, for its base and the number of its
array suffixes. -/
theorem ofParameter_cases
    {place : Option Place}
    {marks : Entries}
    {parameter : Parameter}
    {expression : TypeExpression}
    (mapped : ofParameter place marks parameter = .ok expression) :
    ∃ base count element,
      Text.HasSuffixes parameter.type base count ∧ expression = listed element count ∧
        (WritesScalar (Text.dropLineBreak base) element ∨
          Text.dropLineBreak base = "tuple" ∧
            ∃ fields, ofComponents place parameter.components = .ok fields ∧ fields ≠ [] ∧
              element = .record fields) := by
  obtain ⟨base, count, element, suffixed, isListed, isBase⟩ := base_of_ofParameter mapped
  have readAs := readBase_cases base
  refine ⟨base, count, element, suffixed, isListed, ?_⟩
  rcases isBase with ⟨isUnsigned, digits, found, rfl⟩ | found | ⟨found, ofFields⟩
  · rw [found] at readAs
    exact Or.inl readAs
  · rw [found] at readAs
    exact Or.inl readAs
  · rw [found] at readAs
    exact Or.inr ⟨readAs, ofFields⟩

/-- Only tuples have types that begin like theirs. -/
theorem exists_components_of_dropStart?
    {place : Option Place}
    {marks : Entries}
    {parameter : Parameter}
    {expression : TypeExpression}
    (mapped : ofParameter place marks parameter = .ok expression)
    {suffix : Text}
    (isTuple : Text.dropStart? parameter.type "tuple" = some suffix) :
    ∃ fields, ofComponents place parameter.components = .ok fields ∧ fields ≠ [] := by
  obtain ⟨base, count, element, ⟨sizes, ending, -, -, -, whole⟩, -, isBase⟩ :=
    ofParameter_cases mapped
  rcases isBase with
    ⟨first, letters, digits, written, notTuple, -⟩ | ⟨-, fields, ofFields, notNil, -⟩
  · rw [written, Text.eq_append_of_dropStart? isTuple] at whole
    exact absurd (List.cons.inj whole).1.symm notTuple
  · exact ⟨fields, ofFields, notNil⟩

/-- Parameters are accepted only if each of them is. -/
theorem exists_of_ofParameters
    {place : Option Place}
    {next : Nat}
    {parameters : List Parameter}
    {fields : RecordFields}
    (mapped : ofParameters place next parameters = .ok fields) :
    ∀ parameter ∈ parameters, ∃ type, ofParameter place [] parameter = .ok type := by
  induction parameters generalizing next fields with
  | nil =>
      simp
  | cons first others inductionHypothesis =>
      rw [ofParameters, bind_eq_ok_iff] at mapped
      obtain ⟨type, ofFirst, mapped⟩ := mapped
      refine List.forall_mem_cons.mpr ⟨⟨type, ofFirst⟩, ?_⟩
      split at mapped
      all_goals
        obtain ⟨fields, ofOthers, -⟩ := bind_eq_ok_iff.mp mapped
        exact inductionHypothesis ofOthers

end TypeExpression

namespace Parameter

/-- A parameter is declared with a valid type. -/
structure Declares (parameter : Parameter) (type : DeclaredType) : Prop where
  valid : type.isValid = true
  text : parameter.type = type.text
  has : type.Has parameter.components

/-- If a parameter is mapped to an expression, and a form that means a type is read off
its encoded type, then both are those of a type that it declares, and all of the encoded
type was read. -/
def ReadAsDeclared (parameter : Parameter) : Prop :=
  ∀ place marks expression entries encoded fuel room rest form left abiType,
    TypeExpression.ofParameter place marks parameter = .ok expression →
      Entries.get? entries (.text "type") = some (.text parameter.type) →
        Description.encodedType (.mapping entries (describedComponents parameter.components)) =
            .ok encoded →
          TypeForm.readForm fuel room (encoded ++ rest) = .ok (form, left) →
            TypeForm.Ends rest → TypeForm.Ends left → AbiType.ofForm? form = some abiType →
              left = rest ∧
                ∃ type, parameter.Declares type ∧ type.form = form ∧ type.expression = expression

theorem ofParameters_cons
    {place : Option Place}
    {next : Nat}
    {parameter : Parameter}
    {others : List Parameter}
    {fields : RecordFields}
    (mapped : TypeExpression.ofParameters place next (parameter :: others) = .ok fields) :
    ∃ expression after otherFields,
      TypeExpression.ofParameter place [] parameter = .ok expression ∧
        TypeExpression.ofParameters place after others = .ok otherFields ∧
          ∀ names expressions,
            otherFields = (fillNames standIn (! ·.isEmpty) after names).zip expressions →
              fields = (fillNames standIn (! ·.isEmpty) next (parameter.name :: names)).zip
                (expression :: expressions) := by
  rw [TypeExpression.ofParameters, bind_eq_ok_iff] at mapped
  obtain ⟨expression, ofFirst, mapped⟩ := mapped
  split at mapped
  case isTrue unnamed =>
    simp only [bind_eq_ok_iff, pure_eq_ok_iff] at mapped
    obtain ⟨otherFields, ofOthers, rfl⟩ := mapped
    refine ⟨expression, next + 1, otherFields, ofFirst, ofOthers, ?_⟩
    rintro names expressions rfl
    rw [fillNames, unnamed]
    rfl
  case isFalse named =>
    simp only [bind_eq_ok_iff, pure_eq_ok_iff] at mapped
    obtain ⟨otherFields, ofOthers, rfl⟩ := mapped
    refine ⟨expression, next, otherFields, ofFirst, ofOthers, ?_⟩
    rintro names expressions rfl
    rw [fillNames, if_pos (by simpa using named)]
    rfl

/-- Components declare the types whose forms are members, and fields are what the types
are mapped to, the names that are missing filled up from a number on. -/
def AreDeclared
    (parameters : List Parameter)
    (members : List TypeForm)
    (next : Nat)
    (fields : RecordFields) :
    Prop :=
  ∃ declarations,
    DeclaredType.allValid declarations = true ∧
      DeclaredType.Declare declarations parameters ∧
        DeclaredType.forms declarations = members ∧
          fields = (fillNames standIn (! ·.isEmpty) next (declarations.map (·.1))).zip
            (DeclaredType.expressions declarations)

theorem areDeclared_nil
    (next : Nat) :
    AreDeclared [] [] next [] :=
  ⟨[], rfl, trivial, rfl, rfl⟩

theorem AreDeclared.cons
    {parameter : Parameter}
    {type : DeclaredType}
    {others : List Parameter}
    {members : List TypeForm}
    {next after : Nat}
    {fields otherFields : RecordFields}
    (ofOthers : AreDeclared others members after otherFields)
    (declares : parameter.Declares type)
    (isMapped : ∀ names expressions,
      otherFields = (fillNames standIn (! ·.isEmpty) after names).zip expressions →
        fields = (fillNames standIn (! ·.isEmpty) next (parameter.name :: names)).zip
          (type.expression :: expressions)) :
    AreDeclared (parameter :: others) (type.form :: members) next fields := by
  obtain ⟨declarations, valid, declared, rfl, areFields⟩ := ofOthers
  refine ⟨(parameter.name, type) :: declarations, ?_,
    ⟨rfl, declares.text, declares.has, declared⟩, rfl, isMapped _ _ areFields⟩
  rw [DeclaredType.allValid, declares.valid, valid]
  rfl

/-- The components of a tuple declare their types, if each of them is read as declared. -/
theorem declare_of_readMembers
    {parameters : List Parameter}
    (each : ∀ parameter ∈ parameters, ReadAsDeclared parameter)
    (notEmpty : parameters ≠ [])
    {place : Option Place}
    {next : Nat}
    {fields : RecordFields}
    (mapped : TypeExpression.ofParameters place next parameters = .ok fields)
    {types : List Text}
    (encoded : Description.encodedTypes (descriptions parameters) = .ok types)
    {fuel room : Nat}
    {tail left : Text}
    {members : List TypeForm}
    (read : TypeForm.readMembers fuel room (Text.join "," types ++ (")" ++ tail)) =
      .ok (members, left))
    {memberTypes : List AbiType}
    (meant : AbiType.ofForms? members = some memberTypes) :
    left = tail ∧ AreDeclared parameters members next fields := by
  -- What stands behind a member, a comma or the closing mark, ends the type of the member,
  -- and it has to agree with what was written there.
  induction parameters generalizing next fields types fuel members left memberTypes with
  | nil =>
      exact absurd rfl notEmpty
  | cons parameter others inductionHypothesis =>
      obtain ⟨ofParameter, ofComponents⟩ := List.forall_mem_cons.mp each
      obtain ⟨expression, after, otherFields, ofFirst, ofOthers, isMapped⟩ :=
        ofParameters_cons mapped
      obtain ⟨entries, described, -, hasType⟩ := parameter.ofValue_describe
      rw [descriptions, List.map_cons, Description.encodedTypes, described] at encoded
      simp only [bind_eq_ok_iff, pure_eq_ok_iff] at encoded
      obtain ⟨firstType, ofFirstType, otherTypes, ofOtherTypes, rfl⟩ := encoded
      cases fuel with
      | zero =>
          rw [TypeForm.readMembers] at read
          cases read
      | succ fuel =>
          obtain ⟨member, otherMembers, rest, rfl, readFirst, behind⟩ :=
            TypeForm.readMembers_cases read
          have restEnds : TypeForm.Ends rest := by
            rcases behind with ⟨rfl, -⟩ | ⟨more, rfl, -⟩
            · exact TypeForm.ends_closing _
            · exact TypeForm.ends_comma _
          simp only [AbiType.ofForms?, Option.bind_eq_bind, Option.bind_eq_some_iff] at meant
          obtain ⟨firstMeant, isMeant, othersMeant, areMeant, -⟩ := meant
          -- Whatever ends the type of the first member, the member is read up to it.
          have firstRead : ∀ {ending : Text}, TypeForm.Ends ending →
              TypeForm.readForm fuel room (firstType ++ ending) = .ok (member, rest) →
                rest = ending ∧ ∃ type, parameter.Declares type ∧ type.form = member ∧
                  type.expression = expression :=
            fun ends readFirst => ofParameter place [] expression entries firstType _ _ _ _ _ _
              ofFirst hasType ofFirstType readFirst ends restEnds isMeant
          cases others with
          | nil =>
              cases ofOtherTypes
              cases ofOthers
              rw [Text.join_singleton] at readFirst
              obtain ⟨rfl, type, declares, rfl, rfl⟩ :=
                firstRead (TypeForm.ends_closing tail) readFirst
              rcases behind with ⟨same, rfl⟩ | ⟨more, same, -⟩
              · exact ⟨(List.append_cancel_left same).symm,
                  (areDeclared_nil after).cons declares isMapped⟩
              · exact absurd (List.cons.inj same).1 (by decide)
          | cons second others =>
              obtain ⟨secondType, moreTypes, rfl⟩ :
                  ∃ secondType moreTypes, otherTypes = secondType :: moreTypes := by
                simp only [List.map_cons, Description.encodedTypes, bind_eq_ok_iff,
                  pure_eq_ok_iff] at ofOtherTypes
                obtain ⟨secondType, -, moreTypes, -, rfl⟩ := ofOtherTypes
                exact ⟨secondType, moreTypes, rfl⟩
              rw [Text.join_cons_cons, List.append_assoc, List.append_assoc] at readFirst
              obtain ⟨rfl, type, declares, rfl, rfl⟩ :=
                firstRead (TypeForm.ends_comma _) readFirst
              rcases behind with ⟨same, -⟩ | ⟨more, same, readOthers⟩
              · exact absurd (List.cons.inj same).1 (by decide)
              · rw [← List.append_cancel_left same] at readOthers
                obtain ⟨nothingLeft, areDeclared⟩ :=
                  inductionHypothesis ofComponents (by simp) ofOthers ofOtherTypes readOthers
                    areMeant
                exact ⟨nothingLeft, areDeclared.cons declares isMapped⟩

/-- A type that is written as a scalar type with array suffixes is read as declared. -/
theorem declares_of_writesScalar
    {parameter : Parameter}
    {base : Text}
    {element : TypeExpression}
    (isScalar : TypeExpression.WritesScalar base element)
    {sizes : List Text}
    (areSizes : ∀ size ∈ sizes, ∀ c ∈ size, c.isDecimalDigit = true)
    {ending rest : Text}
    (isEnding : Text.IsEnding ending)
    (whole : parameter.type = base ++ (Text.arraySuffixes sizes ++ ending))
    {fuel room : Nat}
    {form : TypeForm}
    {left : Text}
    (read : TypeForm.readForm fuel room (parameter.type ++ rest) = .ok (form, left))
    (ends : TypeForm.Ends rest)
    (leftEnds : TypeForm.Ends left)
    {abiType : AbiType}
    (meant : AbiType.ofForm? form = some abiType) :
    left = rest ∧
      ∃ type, parameter.Declares type ∧ type.form = form ∧
        type.expression = TypeExpression.listed element sizes.length := by
  obtain ⟨first, letters, digits, isWord, -, areLetters, areDigits, writes⟩ := isScalar
  rw [isWord, List.append_assoc] at whole
  rw [whole, List.append_assoc, List.append_assoc, List.append_assoc] at read
  obtain ⟨rfl, nothingLeft, width, numbers, rfl, notZero, rfl, areNumbers, rfl⟩ :=
    TypeForm.readForm_word areLetters areDigits areSizes isEnding ends read leftEnds
  obtain ⟨wordType, ofWord⟩ := AbiType.ofForm?_of_within meant
  obtain ⟨scalar, valid, written, rfl, hasForm⟩ := writes width wordType rfl notZero ofWord
  refine ⟨nothingLeft, (DeclaredType.scalar scalar).arrays numbers,
    ⟨DeclaredType.isValid_arrays (.scalar scalar) valid areNumbers, ?_,
      DeclaredType.has_arrays (.scalar scalar) trivial numbers⟩, ?_, ?_⟩
  · rw [whole, DeclaredType.text_arrays, DeclaredType.text, written, isWord,
      Text.arraySuffixes_digits, List.append_nil, List.append_assoc]
  · rw [DeclaredType.form_arrays, DeclaredType.form, hasForm]
  · rw [DeclaredType.expression_arrays, List.length_map]
    rfl

/-- A tuple with array suffixes is read as declared, if its components are. -/
theorem declares_of_tuple
    {parameter : Parameter}
    {components : List Parameter}
    (hasComponents : parameter.components = some components)
    (each : ∀ component ∈ components, ReadAsDeclared component)
    {place : Option Place}
    {fields : RecordFields}
    (ofFields : TypeExpression.ofParameters place 1 components = .ok fields)
    (notEmpty : fields ≠ [])
    {types : List Text}
    (ofTypes : Description.encodedTypes (descriptions components) = .ok types)
    {sizes : List Text}
    (areSizes : ∀ size ∈ sizes, ∀ c ∈ size, c.isDecimalDigit = true)
    {ending rest : Text}
    (isEnding : Text.IsEnding ending)
    (whole : parameter.type = "tuple" ++ (Text.arraySuffixes sizes ++ ending))
    {fuel room : Nat}
    {form : TypeForm}
    {left : Text}
    (read : TypeForm.readForm fuel room
      ("(" ++ (Text.join "," types ++ (")" ++ ((Text.arraySuffixes sizes ++ ending) ++ rest)))) =
        .ok (form, left))
    (ends : TypeForm.Ends rest)
    (leftEnds : TypeForm.Ends left)
    {abiType : AbiType}
    (meant : AbiType.ofForm? form = some abiType) :
    left = rest ∧
      ∃ type, parameter.Declares type ∧ type.form = form ∧
        type.expression = TypeExpression.listed (.record fields) sizes.length := by
  have hasMembers : components ≠ [] := by
    rintro rfl
    rw [TypeExpression.ofParameters] at ofFields
    cases ofFields
    exact notEmpty rfl
  cases fuel with
  | zero =>
      rw [TypeForm.readForm] at read
      cases read
  | succ fuel =>
      rw [TypeForm.readForm, Text.dropStart?_append] at read
      dsimp only at read
      split at read
      case isTrue =>
        cases read
      case isFalse =>
        simp only [map_eq_ok_iff, Prod.exists] at read
        obtain ⟨members, behind, ofMembers, read⟩ := read
        obtain ⟨tupleType, ofTuple⟩ := AbiType.ofForm?_of_readSuffixes read meant
        rw [AbiType.ofForm?, Option.map_eq_some_iff] at ofTuple
        obtain ⟨memberTypes, membersMeant, -⟩ := ofTuple
        -- The members are read up to the suffixes, and the suffixes up to the rest.
        obtain ⟨rfl, declarations, valid, declared, rfl, rfl⟩ :=
          declare_of_readMembers each hasMembers ofFields ofTypes ofMembers membersMeant
        rw [List.append_assoc] at read
        obtain ⟨rfl, nothingLeft, numbers, rfl, areNumbers, rfl⟩ :=
          TypeForm.readSuffixes_ends areSizes isEnding ends read leftEnds
        have hasDeclarations : declarations ≠ [] := by
          rintro rfl
          exact hasMembers (DeclaredType.declare_nil declared)
        have tupleHas : (DeclaredType.tuple declarations).Has (some components) :=
          declared
        have tupleValid := DeclaredType.isValid_tuple_iff.mpr
          ⟨DeclaredType.allValid_iff.mp valid, hasDeclarations⟩
        refine ⟨nothingLeft, (DeclaredType.tuple declarations).arrays numbers,
          ⟨DeclaredType.isValid_arrays _ tupleValid areNumbers, ?_, ?_⟩,
          DeclaredType.form_arrays _ _, ?_⟩
        · rw [whole, DeclaredType.text_arrays, DeclaredType.text,
            Text.arraySuffixes_digits, List.append_nil]
        · rw [hasComponents]
          exact DeclaredType.has_arrays _ tupleHas numbers
        · rw [DeclaredType.expression_arrays, List.length_map]
          rfl

theorem readAsDeclared_of_components
    {parameter : Parameter}
    (each :
      ∀ components, parameter.components = some components →
        ∀ component ∈ components, ReadAsDeclared component) :
    ReadAsDeclared parameter := by
  intro place marks expression entries encoded fuel room rest form left abiType mapped hasType
    isEncoded read ends leftEnds meant
  obtain ⟨base, count, element, ⟨sizes, ending, rfl, areSizes, isEnding, whole⟩, rfl, isBase⟩ :=
    TypeExpression.ofParameter_cases mapped
  rw [Description.encodedType, hasType] at isEncoded
  rcases isBase with isScalar | ⟨isTuple, fields, ofFields, notEmpty, rfl⟩
  · have noTuple : Text.dropStart? parameter.type "tuple" = none := by
      obtain ⟨first, letters, digits, isWord, notTuple, -⟩ := isScalar
      rw [whole, isWord]
      exact Text.dropStart?_cons_ne notTuple _ _
    simp only [noTuple] at isEncoded
    cases isEncoded
    exact declares_of_writesScalar isScalar areSizes isEnding whole read ends leftEnds meant
  · rw [isTuple] at whole
    have isTupleText : Text.dropStart? parameter.type "tuple" =
        some (Text.arraySuffixes sizes ++ ending) := by
      rw [whole]
      exact Text.dropStart?_append _ _
    simp only [isTupleText] at isEncoded
    obtain ⟨components, hasComponents, ofFields⟩ :=
      TypeExpression.exists_members_of_ofComponents ofFields notEmpty
    rw [hasComponents, describedComponents, Description.componentTypes,
      ofValues_describeAll, bind_eq_ok_iff] at isEncoded
    obtain ⟨types, ofTypes, isEncoded⟩ := isEncoded
    cases isEncoded
    rw [List.append_assoc, List.append_assoc, List.append_assoc] at read
    exact declares_of_tuple hasComponents (each components hasComponents) ofFields notEmpty
      ofTypes areSizes isEnding whole read ends leftEnds meant

theorem readAsDeclared
    (parameter : Parameter) :
    ReadAsDeclared parameter :=
  parameter.inductionOnMembers fun _ => readAsDeclared_of_components

end Parameter

end ContractBindings
