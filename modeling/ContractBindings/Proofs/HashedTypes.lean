import ContractBindings.Call.Event
import ContractBindings.Proofs.ReadForms

namespace ContractBindings

/-!
# What is left of indexed parameters

An indexed parameter of a dynamic type leaves only a hash in its topic.  The text of the type
is asked how it begins and how it ends, which does not find all dynamic types: an array of a
given size is dynamic if its elements are.

Main statement: of the indexed parameters whose types are dynamic, exactly the arrays of a
given size that are no tuples are decoded as they are declared, and these are the only dynamic
types among those that topics are decoded by.
-/

/-- A text is a dynamic type: bytes, a string or a tuple, an array of any size, or an array of a
given size of such a type. -/
inductive IsDynamicType : Text → Prop where
  | bytes : IsDynamicType "bytes"
  | string : IsDynamicType "string"
  | tuple : IsDynamicType "tuple"
  | list (element : Text) : IsDynamicType (element ++ "[]")
  | sized {element size : Text} (isDynamic : IsDynamicType element) (isSize : IsSize size) :
      IsDynamicType (element ++ ("[" ++ size ++ "]"))

/-- A text ends with an array suffix that has a size. -/
def EndsWithSize (t : Text) : Prop :=
  ∃ element size, IsSize size ∧ t = element ++ ("[" ++ size ++ "]")

/-- An array of a given size, whose elements are no tuples. -/
structure IsSizedArray (type : Text) : Prop where
  noTuple : ¬ Text.ofString "tuple" <+: type
  sized : EndsWithSize type

namespace Text

/-- An opening bracket is no digit. -/
theorem not_mem_of_isSize
    {size : Text}
    (isSize : IsSize size) :
    CodePoint.ofChar '[' ∉ size :=
  fun isBracket => absurd (isSize.areDigits _ isBracket) (by decide)

theorem reverse_suffix
    (element size : Text) :
    (element ++ ("[" ++ size ++ "]")).reverse =
      CodePoint.ofChar ']' :: (size.reverse ++ CodePoint.ofChar '[' :: element.reverse) := by
  have opens : Text.ofString "[" = [CodePoint.ofChar '['] := rfl
  have closes : Text.ofString "]" = [CodePoint.ofChar ']'] := rfl
  rw [opens, closes]
  simp

/-- The last array suffix of a text is found in one way only. -/
theorem suffix_inj
    {element other size otherSize : Text}
    (noBracket : CodePoint.ofChar '[' ∉ size)
    (noOtherBracket : CodePoint.ofChar '[' ∉ otherSize)
    (same : element ++ ("[" ++ size ++ "]") = other ++ ("[" ++ otherSize ++ "]")) :
    element = other ∧ size = otherSize := by
  have upTo :
      ∀ (digits rest : Text), CodePoint.ofChar '[' ∉ digits →
        (digits.reverse ++ CodePoint.ofChar '[' :: rest).takeWhile (· ≠ CodePoint.ofChar '[') =
          digits.reverse := by
    intro digits rest absent
    rw [List.takeWhile_append_of_pos, List.takeWhile_cons_of_neg (by simp), List.append_nil]
    intro c member
    simpa using fun isBracket : c = CodePoint.ofChar '[' =>
      absent (isBracket ▸ List.mem_reverse.mp member)
  have reversed := congrArg List.reverse same
  rw [reverse_suffix, reverse_suffix, List.cons.injEq] at reversed
  have sameSize := congrArg (List.takeWhile (· ≠ CodePoint.ofChar '[')) reversed.2
  rw [upTo _ _ noBracket, upTo _ _ noOtherBracket, List.reverse_inj] at sameSize
  subst sameSize
  exact ⟨List.append_cancel_right same, rfl⟩

/-- A text that ends otherwise has no array suffix. -/
theorem ne_suffix
    {t : Text}
    {last : CodePoint}
    (ends : t.getLast? = some last)
    (notBracket : last ≠ ']')
    (element size : Text) :
    t ≠ element ++ ("[" ++ size ++ "]") := by
  rintro rfl
  rw [List.getLast?_eq_head?_reverse, reverse_suffix, List.head?_cons] at ends
  exact notBracket (Option.some.inj ends).symm

/-- Only a suffix without a size is empty. -/
theorem endsWith_emptySuffix_iff
    {element size : Text}
    (noBracket : CodePoint.ofChar '[' ∉ size) :
    Text.ofString "[]" <:+ element ++ ("[" ++ size ++ "]") ↔ size = [] := by
  constructor
  · rintro ⟨other, same⟩
    exact (suffix_inj List.not_mem_nil noBracket same).2.symm
  · rintro rfl
    exact ⟨element, rfl⟩

end Text

theorem isHashedWhenIndexed_eq_true_iff
    {type : Text} :
    isHashedWhenIndexed type = true ↔
      type = "string" ∨ type = "bytes" ∨ Text.ofString "tuple" <+: type ∨
        Text.ofString "[]" <:+ type := by
  simp only [isHashedWhenIndexed, Bool.or_eq_true, decide_eq_true_eq, Text.startsWith_iff,
    Text.endsWith_iff, or_assoc]

namespace IsDynamicType

/-- A dynamic type leaves a hash, unless it is an array of a given size. -/
theorem isHashedWhenIndexed_iff
    {type : Text}
    (isDynamic : IsDynamicType type) :
    isHashedWhenIndexed type = true ↔ ¬ IsSizedArray type := by
  rw [isHashedWhenIndexed_eq_true_iff]
  cases isDynamic with
  | bytes =>
      refine iff_of_true (Or.inr (Or.inl rfl)) ?_
      rintro ⟨-, element, size, -, same⟩
      exact Text.ne_suffix (by rfl) (by decide) element size same
  | string =>
      refine iff_of_true (Or.inl rfl) ?_
      rintro ⟨-, element, size, -, same⟩
      exact Text.ne_suffix (by rfl) (by decide) element size same
  | tuple =>
      exact iff_of_true (Or.inr (Or.inr (Or.inl (List.prefix_refl _))))
        fun isSized => isSized.noTuple (List.prefix_refl _)
  | list element =>
      refine iff_of_true (Or.inr (Or.inr (Or.inr (List.suffix_append element _)))) ?_
      rintro ⟨-, other, size, isSize, same⟩
      refine isSize.notEmpty ?_
      rw [← Text.endsWith_emptySuffix_iff (Text.not_mem_of_isSize isSize), ← same]
      exact List.suffix_append element _
  | @sized element size isDynamic isSize =>
      have notString : element ++ ("[" ++ size ++ "]") ≠ "string" :=
        Ne.symm (Text.ne_suffix (by rfl) (by decide) element size)
      have notBytes : element ++ ("[" ++ size ++ "]") ≠ "bytes" :=
        Ne.symm (Text.ne_suffix (by rfl) (by decide) element size)
      have hasSize : EndsWithSize (element ++ ("[" ++ size ++ "]")) :=
        ⟨element, size, isSize, rfl⟩
      rw [Text.endsWith_emptySuffix_iff (Text.not_mem_of_isSize isSize)]
      constructor
      · rintro (isString | isBytes | begins | isEmpty) isSized
        · exact notString isString
        · exact notBytes isBytes
        · exact isSized.noTuple begins
        · exact isSize.notEmpty isEmpty
      · intro notSized
        refine Or.inr (Or.inr (Or.inl ?_))
        by_contra noTuple
        exact notSized ⟨noTuple, hasSize⟩

/-- What ends with a suffix is a dynamic type if the suffix is empty or its element is one. -/
theorem suffix_iff
    {element size : Text}
    (noBracket : CodePoint.ofChar '[' ∉ size) :
    IsDynamicType (element ++ ("[" ++ size ++ "]")) ↔
      size = [] ∨ IsSize size ∧ IsDynamicType element := by
  constructor
  · intro isDynamic
    generalize same : element ++ (Text.ofString "[" ++ size ++ Text.ofString "]") = type
      at isDynamic
    cases isDynamic with
    | bytes =>
        exact absurd same.symm (Text.ne_suffix (by rfl) (by decide) element size)
    | string =>
        exact absurd same.symm (Text.ne_suffix (by rfl) (by decide) element size)
    | tuple =>
        exact absurd same.symm (Text.ne_suffix (by rfl) (by decide) element size)
    | list other =>
        exact Or.inl (Text.suffix_inj noBracket List.not_mem_nil same).2
    | sized isDynamic isSize =>
        obtain ⟨rfl, rfl⟩ := Text.suffix_inj noBracket (Text.not_mem_of_isSize isSize) same
        exact Or.inr ⟨isSize, isDynamic⟩
  · rintro (rfl | ⟨isSize, isDynamic⟩)
    · exact list element
    · exact sized isDynamic isSize

/-- Without a suffix a dynamic type is one of three words. -/
theorem eq_word
    {type : Text}
    {last : CodePoint}
    (isDynamic : IsDynamicType type)
    (ends : type.getLast? = some last)
    (notBracket : last ≠ ']') :
    type = "bytes" ∨ type = "string" ∨ type = "tuple" := by
  cases isDynamic with
  | bytes =>
      exact Or.inl rfl
  | string =>
      exact Or.inr (Or.inl rfl)
  | tuple =>
      exact Or.inr (Or.inr rfl)
  | list element =>
      exact absurd rfl (Text.ne_suffix ends notBracket element [])
  | @sized element size =>
      exact absurd rfl (Text.ne_suffix ends notBracket element size)

end IsDynamicType

namespace TypeForm

/-- A word with its sizes ends in a letter or a digit. -/
theorem getLast?_text_word
    {letters : Text}
    {sizes : Sizes}
    (isWritten : (word letters sizes).IsWritten) :
    ∃ last, (word letters sizes).text.getLast? = some last ∧ last ≠ ']' := by
  obtain ⟨areLetters, notEmpty, areSizes⟩ := isWritten
  have ofSize : ∀ size ∈ sizes.toList, ∃ last, size.getLast? = some last ∧ last ≠ ']' := by
    intro size member
    obtain ⟨areDigits, sizeNotEmpty⟩ := areSizes size member
    refine ⟨size.getLast sizeNotEmpty, List.getLast?_eq_getLast_of_ne_nil sizeNotEmpty, ?_⟩
    intro isBracket
    exact absurd (areDigits _ (isBracket ▸ List.getLast_mem sizeNotEmpty)) (by decide)
  cases sizes with
  | none =>
      refine ⟨letters.getLast notEmpty, ?_, ?_⟩
      · rw [text, Sizes.text, List.append_nil, List.getLast?_eq_getLast_of_ne_nil notEmpty]
      · intro isBracket
        exact absurd (areLetters _ (isBracket ▸ List.getLast_mem notEmpty)) (by decide)
  | one size =>
      obtain ⟨last, ends, notBracket⟩ := ofSize size (by simp [Sizes.toList])
      exact ⟨last, by simp [text, Sizes.text, List.getLast?_append, ends], notBracket⟩
  | two bits places =>
      obtain ⟨last, ends, notBracket⟩ := ofSize places (by simp [Sizes.toList])
      exact ⟨last, by simp [text, Sizes.text, List.getLast?_append, ends], notBracket⟩

/-- A word without a digit has no sizes. -/
theorem eq_none_of_noDigit
    {letters : Text}
    {sizes : Sizes}
    (isWritten : (word letters sizes).IsWritten)
    (noDigit : ((word letters sizes).text.any CodePoint.isAsciiDigit) = false) :
    sizes = .none := by
  have someDigit : ∀ size ∈ sizes.toList, size.any CodePoint.isAsciiDigit = true := by
    intro size member
    obtain ⟨areDigits, notEmpty⟩ := isWritten.2.2 size member
    obtain ⟨first, others, rfl⟩ := List.exists_cons_of_ne_nil notEmpty
    rw [List.any_cons, areDigits first List.mem_cons_self, Bool.true_or]
  cases sizes with
  | none =>
      rfl
  | one size =>
      have digit := someDigit size (by simp [Sizes.toList])
      simp [text, Sizes.text, digit] at noDigit
  | two bits places =>
      have digit := someDigit bits (by simp [Sizes.toList])
      simp [text, Sizes.text, digit] at noDigit

end TypeForm

namespace AbiType

theorem isDynamic_ofPlainWord?
    {word : Text}
    {type : AbiType}
    (meant : ofPlainWord? word = some type) :
    type.isDynamic = true ↔ word = "bytes" ∨ word = "string" := by
  -- The words are compared one after another, each with its own type.
  have compare : ∀ {other : Text} {first : AbiType} {rest : Option AbiType},
      (if word = other then some first else rest) = some type →
        word = other ∧ first = type ∨ rest = some type := by
    intro other first rest isMeant
    split at isMeant
    case isTrue isWord =>
      exact Or.inl ⟨isWord, Option.some.inj isMeant⟩
    case isFalse =>
      exact Or.inr isMeant
  rw [ofPlainWord?] at meant
  repeat' rcases compare meant with ⟨rfl, rfl⟩ | meant
  all_goals first
    | decide
    | cases meant

theorem isDynamic_ofSizedWord?
    {word : Text}
    {size : Nat}
    {type : AbiType}
    (meant : ofSizedWord? word size = some type) :
    type.isDynamic = false := by
  rw [ofSizedWord?] at meant
  repeat' split at meant
  all_goals cases meant <;> rfl

theorem isDynamic_fixedPoint?
    {isSigned : Bool}
    {bits places : Nat}
    {type : AbiType}
    (meant : fixedPoint? isSigned bits places = some type) :
    type.isDynamic = false := by
  rw [fixedPoint?] at meant
  split at meant
  · cases meant
    rfl
  · cases meant

theorem isDynamic_ofFixedPointWord?
    {word : Text}
    {bits places : Nat}
    {type : AbiType}
    (meant : ofFixedPointWord? word bits places = some type) :
    type.isDynamic = false := by
  rw [ofFixedPointWord?] at meant
  split at meant
  · exact isDynamic_fixedPoint? meant
  · split at meant
    · exact isDynamic_fixedPoint? meant
    · split at meant
      · cases meant
        rfl
      · cases meant

/-- Of the words two are dynamic, without a size behind them. -/
theorem isDynamic_ofWord?
    {letters : Text}
    {sizes : Sizes}
    {type : AbiType}
    (meant : ofWord? letters sizes = some type) :
    type.isDynamic = true ↔ sizes = .none ∧ (letters = "bytes" ∨ letters = "string") := by
  cases sizes with
  | none =>
      rw [isDynamic_ofPlainWord? meant]
      exact (and_iff_right rfl).symm
  | one size =>
      simp [isDynamic_ofSizedWord? meant]
  | two bits places =>
      simp [isDynamic_ofFixedPointWord? meant]

theorem isDynamic_iff_of_word
    {letters : Text}
    {sizes : Sizes}
    {type : AbiType}
    (meant : ofWord? letters sizes = some type)
    (isWritten : (TypeForm.word letters sizes).IsWritten) :
    type.isDynamic = true ↔ IsDynamicType (TypeForm.word letters sizes).text := by
  have alone : ∀ word : Text, word.any CodePoint.isAsciiDigit = false →
      (TypeForm.word letters sizes).text = word → sizes = .none ∧ letters = word := by
    rintro word noDigit rfl
    have noSizes := TypeForm.eq_none_of_noDigit isWritten noDigit
    refine ⟨noSizes, ?_⟩
    rw [noSizes, TypeForm.text, Sizes.text, List.append_nil]
  rw [isDynamic_ofWord? meant]
  constructor
  · rintro ⟨rfl, rfl | rfl⟩
    · exact .bytes
    · exact .string
  · intro isDynamic
    obtain ⟨last, ends, notBracket⟩ := TypeForm.getLast?_text_word isWritten
    rcases isDynamic.eq_word ends notBracket with isBytes | isString | isTuple
    · obtain ⟨noSizes, isWord⟩ := alone "bytes" (by decide) isBytes
      exact ⟨noSizes, Or.inl isWord⟩
    · obtain ⟨noSizes, isWord⟩ := alone "string" (by decide) isString
      exact ⟨noSizes, Or.inr isWord⟩
    · obtain ⟨rfl, rfl⟩ := alone "tuple" (by decide) isTuple
      have notMeant : ofWord? "tuple" .none = none := by
        decide
      rw [notMeant] at meant
      cases meant

/-- The type that a form means is dynamic exactly if the text of the form is a dynamic type.
Tuples that are written as lists of types are left out. -/
theorem isDynamic_iff
    {form : TypeForm}
    {type : AbiType}
    (meant : ofForm? form = some type)
    (isWritten : form.IsWritten)
    (noList : ¬ Text.ofString "(" <+: form.text) :
    type.isDynamic = true ↔ IsDynamicType form.text := by
  -- The induction follows the arrays down to the word in them.
  induction form using TypeForm.inductionOnMembers generalizing type with
  | word letters sizes =>
      exact isDynamic_iff_of_word meant isWritten
  | array element size inductionHypothesis =>
      obtain ⟨elementIsWritten, isSize⟩ := isWritten
      rw [ofForm?, Option.map_eq_some_iff] at meant
      obtain ⟨elementType, ofElement, rfl⟩ := meant
      have ofElementType := inductionHypothesis ofElement elementIsWritten fun begins =>
        noList (begins.trans (List.prefix_append _ _))
      cases size with
      | none =>
          exact iff_of_true rfl (IsDynamicType.list element.text)
      | some digits =>
          have digitsAreSize := isSize digits rfl
          have notEmpty := digitsAreSize.notEmpty
          rw [TypeForm.text, Option.getD_some,
            IsDynamicType.suffix_iff (Text.not_mem_of_isSize digitsAreSize),
            or_iff_right notEmpty, and_iff_right digitsAreSize, ← ofElementType]
          rfl
  | tuple members =>
      exact absurd (List.prefix_append _ _) noList

theorem isDynamic_iff_of_ofText
    {t : Text}
    {type : AbiType}
    (read : ofText t = .ok type)
    (noList : ¬ Text.ofString "(" <+: t) :
    type.isDynamic = true ↔ IsDynamicType t := by
  obtain ⟨form, rfl, isWritten, meant⟩ := exists_form_of_ofText read
  exact isDynamic_iff meant isWritten noList

end AbiType

namespace Description

/-- Whether a hash is decoded for an indexed parameter is decided by the text of its type. -/
theorem decoding_of_indexed
    {description : Description}
    (isIndexed : description.isIndexed = .ok true)
    {name : Value}
    (named : description.name = .ok name)
    {type : Text}
    (typed : description.type = .ok (.text type)) :
    description.decoding =
      .ok (if isHashedWhenIndexed type then hashed name else description) := by
  rw [decoding, isIndexed, typed, named]
  cases isHashed : isHashedWhenIndexed type <;>
    simp [isHashedType, isHashed, bind, Except.bind, pure, Except.pure]

/-- A topic is decoded by the description of a hash or by the one of its parameter. -/
theorem cases_of_topicPart
    {description topic : Description}
    (isPart : description.topicPart = .ok (some topic)) :
    (∃ name, topic = hashed name) ∨
      topic = description ∧
        ∃ type, description.type = .ok (.text type) ∧ isHashedWhenIndexed type = false := by
  rw [topicPart, bind_eq_ok_iff] at isPart
  obtain ⟨indexed, isIndexed, isPart⟩ := isPart
  cases indexed with
  | false =>
      cases isPart
  | true =>
      simp only [↓reduceIte, bind_eq_ok_iff, pure_eq_ok_iff, Option.some.injEq,
        exists_eq_right] at isPart
      simp only [decoding, isIndexed, bind_eq_ok_iff, Except.ok.injEq, exists_eq_left',
        ↓reduceIte] at isPart
      obtain ⟨value, typed, isHashed, ofValue, isTopic⟩ := isPart
      cases value with
      | text type =>
          cases ofValue
          cases hashes : isHashedWhenIndexed type with
          | true =>
              simp only [hashes, ↓reduceIte, bind_eq_ok_iff, pure_eq_ok_iff] at isTopic
              obtain ⟨name, -, rfl⟩ := isTopic
              exact Or.inl ⟨name, rfl⟩
          | false =>
              simp only [hashes, Bool.false_eq_true, ↓reduceIte, pure_eq_ok_iff] at isTopic
              exact Or.inr ⟨isTopic.symm, type, typed, hashes⟩
      | _ =>
          cases ofValue

/-- What is no tuple is encoded under the type in its description. -/
theorem encodedType_of_noTuple
    {description : Description}
    {type : Text}
    (typed : description.type = .ok (.text type))
    (noTuple : ¬ Text.ofString "tuple" <+: type) :
    description.encodedType = .ok type := by
  cases description with
  | mapping entries components =>
      rw [Description.type, required] at typed
      cases hasType : entries.get? (.text "type") with
      | none =>
          simp only [hasType] at typed
          cases typed
      | some value =>
          simp only [hasType, Except.ok.injEq] at typed
          subst typed
          rw [← Text.startsWith_iff, Text.startsWith, Bool.not_eq_true,
            Option.isSome_eq_false_iff, Option.isNone_iff_eq_none] at noTuple
          rw [encodedType, hasType]
          simp only [noTuple]
  | bare other =>
      cases typed
  | malformed =>
      cases typed

/-- Of the types that topics are decoded by only arrays of a given size are dynamic. -/
theorem topic_isStatic
    {description topic : Description}
    (isPart : description.topicPart = .ok (some topic))
    {type : Text}
    (encoded : topic.encodedType = .ok type) :
    topic.type = .ok (.text type) ∧ (IsDynamicType type → IsSizedArray type) := by
  rcases cases_of_topicPart isPart with ⟨name, rfl⟩ | ⟨rfl, own, typed, notHashed⟩
  · have isWord : type = "bytes32" := by
      cases encoded
      rfl
    subst isWord
    refine ⟨rfl, fun isDynamic => ?_⟩
    have isOther := isDynamic.eq_word (by rfl) (by decide)
    exact absurd isOther (by decide)
  · have noTuple : ¬ Text.ofString "tuple" <+: own := by
      intro begins
      have hashes := isHashedWhenIndexed_eq_true_iff.mpr (Or.inr (Or.inr (Or.inl begins)))
      rw [notHashed] at hashes
      cases hashes
    rw [encodedType_of_noTuple typed noTuple, Except.ok.injEq] at encoded
    subst encoded
    refine ⟨typed, fun isDynamic => ?_⟩
    by_contra notSized
    rw [isDynamic.isHashedWhenIndexed_iff.mpr notSized] at notHashed
    cases notHashed

/-- An indexed parameter of a dynamic type is decoded as a hash, unless the type is an array of
a given size that is no tuple.  Then it is decoded as declared, and of the dynamic types only
such are among those that topics are decoded by. -/
theorem decoding_of_isDynamicType
    {descriptions : List Description}
    {parts : List (Option Description)}
    (areParts : descriptions.mapM topicPart = .ok parts) :
    (∀ description ∈ descriptions, ∀ name type,
        description.isIndexed = .ok true → description.name = .ok name →
          description.type = .ok (.text type) → IsDynamicType type →
            (¬ IsSizedArray type → description.decoding = .ok (hashed name)) ∧
              (IsSizedArray type → description.decoding = .ok description)) ∧
      ∀ topic ∈ parts.filterMap id, ∀ type, topic.encodedType = .ok type →
        topic.type = .ok (.text type) ∧
          ∀ abiType, AbiType.ofText type = .ok abiType → ¬ Text.ofString "(" <+: type →
            (abiType.isDynamic = true ↔ IsDynamicType type ∧ IsSizedArray type) := by
  constructor
  · intro description _ name type isIndexed named typed isDynamic
    rw [decoding_of_indexed isIndexed named typed]
    constructor
    · intro notSized
      rw [if_pos (isDynamic.isHashedWhenIndexed_iff.mpr notSized)]
    · intro isSized
      rw [if_neg fun hashes => isDynamic.isHashedWhenIndexed_iff.mp hashes isSized]
  · intro topic isTopic type encoded
    obtain ⟨part, isPart, rfl⟩ := List.mem_filterMap.mp isTopic
    have ofEach := forall_mem_of_mapM
      (motive := fun part => ∀ topic, part = some topic → topic.encodedType = .ok type →
        topic.type = .ok (.text type) ∧ (IsDynamicType type → IsSizedArray type)) areParts
      fun description _ result isResult topic isSome encoded =>
        topic_isStatic (isSome ▸ isResult) encoded
    obtain ⟨typed, onlySized⟩ := ofEach (some topic) isPart topic rfl encoded
    refine ⟨typed, fun abiType read noList => ?_⟩
    rw [AbiType.isDynamic_iff_of_ofText read noList]
    exact ⟨fun isDynamic => ⟨isDynamic, onlySized isDynamic⟩, fun ⟨isDynamic, _⟩ => isDynamic⟩

/-- The description of an indexed parameter without components. -/
def marked (name type : Text) : Description :=
  .mapping [(.text "name", .text name), (.text "type", .text type), (.text "indexed", .bool true)]
    .absent

theorem isDynamicType_stringPair :
    IsDynamicType "string[2]" := by
  have isSize : IsSize "2" := ⟨List.all_eq_true.mp (by decide), by decide⟩
  exact IsDynamicType.sized .string isSize

theorem decoding_of_isDynamicType_mixed :
    [marked "text" "string", marked "pair" "string[2]"].mapM topicPart =
        .ok [some (hashed (.text "text")), some (marked "pair" "string[2]")] ∧
      (marked "text" "string").decoding = .ok (hashed (.text "text")) ∧
        (hashed (.text "text")).encodedType = .ok "bytes32" ∧
          (AbiType.fixedBytes 32).isDynamic = false := by
  have areParts : [marked "text" "string", marked "pair" "string[2]"].mapM topicPart =
      .ok [some (hashed (.text "text")), some (marked "pair" "string[2]")] := by
    rfl
  obtain ⟨ofParameters, ofTopics⟩ := decoding_of_isDynamicType areParts
  have notSized : ¬ IsSizedArray "string" := by
    rintro ⟨-, element, size, -, same⟩
    exact Text.ne_suffix (by rfl) (by decide) element size same
  refine ⟨areParts, (ofParameters _ List.mem_cons_self _ _ rfl rfl rfl .string).1 notSized, rfl, ?_⟩
  have isTopic : hashed (.text "text") ∈
      [some (hashed (.text "text")), some (marked "pair" "string[2]")].filterMap id := by
    simp
  have read : AbiType.ofText "bytes32" = .ok (.fixedBytes 32) := by
    rfl
  have noList : ¬ Text.ofString "(" <+: "bytes32" := by
    decide
  have isDynamic_iff := (ofTopics _ isTopic "bytes32" rfl).2 _ read noList
  rw [← Bool.not_eq_true, isDynamic_iff]
  rintro ⟨-, -, element, size, -, same⟩
  exact Text.ne_suffix (by rfl) (by decide) element size same

/-- A pair of strings is a dynamic type that is decoded from its topic as declared. -/
theorem decoding_stringPair :
    (marked "pair" "string[2]").isIndexed = .ok true ∧ IsDynamicType "string[2]" ∧
      (marked "pair" "string[2]").decoding = .ok (marked "pair" "string[2]") ∧
        AbiType.ofText "string[2]" = .ok (.array .string (some 2)) ∧
          (AbiType.array .string (some 2)).isDynamic = true :=
  ⟨rfl, isDynamicType_stringPair, rfl, rfl, rfl⟩

end Description

end ContractBindings
