import Mathlib.Data.List.TakeDrop
import ContractBindings.Proofs.AcceptedTypes

namespace ContractBindings

/-!
# The bases of types

A type is an array if it ends in brackets with decimal digits or nothing between them, and its
base is what is left when there are no more arrays.  The bases that mean something are listed by
a relation, and the program tells a base apart exactly as the list does.  One line break at the
end of a type or of a base does not count.
-/

namespace Text

theorem dropLineBreak_append_ending
    {t ending : Text}
    (isEnding : IsEnding ending)
    (noBreak : t.getLast? ≠ some '\n') :
    dropLineBreak (t ++ ending) = t := by
  rcases isEnding with rfl | rfl
  · rw [List.append_nil, dropLineBreak, dropEnd?]
    cases reversed : t.reverse with
    | nil =>
        rfl
    | cons last rest =>
        have notBreak : last ≠ '\n' := by
          rintro rfl
          rw [List.getLast?_eq_head?_reverse, reversed] at noBreak
          exact noBreak rfl
        have kept : dropStart? (last :: rest) (Text.ofString "\n").reverse = none :=
          dropStart?_cons_ne notBreak rest []
        rw [kept]
        rfl
  · rw [dropLineBreak, dropEnd?, List.reverse_append, dropStart?_append]
    simp

theorem dropLineBreak_of_oneLine
    {t : Text}
    (oneLine : ∀ c ∈ t, c ≠ '\n') :
    dropLineBreak t = t := by
  have kept := dropLineBreak_append_ending (t := t) (Or.inl rfl) fun last =>
    oneLine _ (List.mem_of_getLast? last) rfl
  rwa [List.append_nil] at kept

/-- A type is an array of what stands in front of its last suffix.  This is a single line, and
a line break may stand behind the suffix. -/
def IsArrayOf (t element : Text) : Prop :=
  (∀ c ∈ element, c ≠ '\n') ∧
    ∃ digits ending,
      (∀ c ∈ digits, c.isDecimalDigit = true) ∧ IsEnding ending ∧
        t = element ++ ("[" ++ digits ++ "]") ++ ending

theorem dropLineBreak_suffix
    {element digits ending : Text}
    (isEnding : IsEnding ending) :
    dropLineBreak (element ++ ("[" ++ digits ++ "]") ++ ending) =
      element ++ ("[" ++ digits ++ "]") := by
  refine dropLineBreak_append_ending isEnding ?_
  have closes : Text.ofString "]" = [CodePoint.ofChar ']'] := rfl
  rw [closes, ← List.append_assoc, ← List.append_assoc, List.getLast?_concat]
  decide

theorem dropArraySuffix?_eq_some_iff
    {t element : Text} :
    dropArraySuffix? t = some element ↔ IsArrayOf t element := by
  constructor
  · exact append_of_dropArraySuffix?
  · rintro ⟨oneLine, digits, ending, areDigits, isEnding, rfl⟩
    have dropped := dropArraySuffix?_append oneLine areDigits
    -- The ending makes no difference, and neither does an empty one.
    rw [dropArraySuffix?, ← List.append_nil (element ++ _),
      dropLineBreak_suffix (Or.inl rfl)] at dropped
    rw [dropArraySuffix?, dropLineBreak_suffix isEnding]
    exact dropped

theorem IsArrayOf.length_lt
    {t element : Text}
    (isArray : IsArrayOf t element) :
    element.length < t.length := by
  obtain ⟨-, digits, ending, -, -, rfl⟩ := isArray
  have opens : (Text.ofString "[").length = 1 := rfl
  simp only [List.length_append, opens]
  omega

/-- What is left of a type without its array suffixes, and how many of them there are. -/
inductive HasBase : (t base : Text) → (count : Nat) → Prop where
  | same {t : Text} (noArray : ∀ element, ¬ IsArrayOf t element) : HasBase t t 0
  | array
      {t element base : Text}
      {count : Nat}
      (isArray : IsArrayOf t element)
      (inside : HasBase element base count) :
      HasBase t base (count + 1)

theorem exists_hasBase
    (t : Text) :
    ∃ base count, HasBase t base count := by
  induction shorter : t.length using Nat.strongRecOn generalizing t with
  | ind length inductionHypothesis =>
      by_cases isArray : ∃ element, IsArrayOf t element
      · obtain ⟨element, isArray⟩ := isArray
        obtain ⟨base, count, inside⟩ :=
          inductionHypothesis element.length (shorter ▸ isArray.length_lt) element rfl
        exact ⟨base, count + 1, .array isArray inside⟩
      · exact ⟨t, 0, .same (not_exists.mp isArray)⟩

theorem dropArraySuffixes_of_hasBase
    {t base : Text}
    {count : Nat}
    (hasBase : HasBase t base count)
    {fuel : Nat}
    (enough : t.length ≤ fuel) :
    dropArraySuffixes fuel t = (base, count) := by
  induction hasBase generalizing fuel with
  | same noArray =>
      cases fuel with
      | zero =>
          rfl
      | succ fuel =>
          rw [dropArraySuffixes, Option.eq_none_iff_forall_ne_some.mpr fun element dropped =>
            noArray element (dropArraySuffix?_eq_some_iff.mp dropped)]
  | array isArray _ inductionHypothesis =>
      have shorter := isArray.length_lt
      cases fuel with
      | zero =>
          omega
      | succ fuel =>
          have ofElement : dropArraySuffixes fuel _ = _ := inductionHypothesis (by omega)
          rw [dropArraySuffixes, dropArraySuffix?_eq_some_iff.mpr isArray]
          simp only [ofElement]

theorem arrayBase_of_hasBase
    {t base : Text}
    {count : Nat}
    (hasBase : HasBase t base count) :
    arrayBase t = (base, count) :=
  dropArraySuffixes_of_hasBase hasBase le_rfl

theorem arraySuffixes_concat
    (sizes : List Text)
    (size : Text) :
    arraySuffixes (sizes ++ [size]) = arraySuffixes sizes ++ ("[" ++ size ++ "]") := by
  simp [arraySuffixes]

theorem oneLine_arraySuffixes
    {sizes : List Text}
    (areSizes : ∀ size ∈ sizes, ∀ c ∈ size, c.isDecimalDigit = true) :
    ∀ c ∈ arraySuffixes sizes, c ≠ '\n' := by
  intro c member
  obtain ⟨size, isSize, inSize⟩ := List.mem_flatMap.mp member
  rintro rfl
  rcases List.mem_append.mp inSize with opened | closing
  · rcases List.mem_append.mp opened with opening | digit
    · exact absurd opening (by decide)
    · exact absurd (areSizes size isSize _ digit) (by decide)
  · exact absurd closing (by decide)

/-- A type is its base, of which an ending does not count, with its suffixes. -/
theorem HasBase.exists_sizes
    {t base : Text}
    {count : Nat}
    (hasBase : HasBase t base count) :
    ∃ sizes,
      sizes.length = count ∧ (∀ size ∈ sizes, ∀ c ∈ size, c.isDecimalDigit = true) ∧
        dropLineBreak t = dropLineBreak base ++ arraySuffixes sizes := by
  induction hasBase with
  | same =>
      exact ⟨[], rfl, by simp, (List.append_nil _).symm⟩
  | array isArray _ inductionHypothesis =>
      obtain ⟨oneLine, digits, ending, areDigits, isEnding, rfl⟩ := isArray
      obtain ⟨sizes, asMany, areSizes, written⟩ := inductionHypothesis
      rw [dropLineBreak_of_oneLine oneLine] at written
      refine ⟨sizes ++ [digits], by simp [asMany], ?_, ?_⟩
      · rintro size member
        rcases List.mem_append.mp member with isInside | isLast
        · exact areSizes size isInside
        · rw [List.mem_singleton.mp isLast]
          exact areDigits
      · rw [dropLineBreak_suffix isEnding, written, arraySuffixes_concat, List.append_assoc]

/-- Where suffixes stand behind a base that is a single line and no array, they are all
dropped. -/
theorem exists_hasBase_of_suffixes
    {base : Text}
    (oneLine : ∀ c ∈ base, c ≠ '\n')
    (noBracket : base.getLast? ≠ some ']')
    {sizes : List Text}
    (areSizes : ∀ size ∈ sizes, ∀ c ∈ size, c.isDecimalDigit = true)
    {t : Text}
    (written : dropLineBreak t = base ++ arraySuffixes sizes) :
    ∃ rest, HasBase t rest sizes.length ∧ dropLineBreak rest = base := by
  induction sizes using List.reverseRecOn generalizing t with
  | nil =>
      rw [arraySuffixes, List.flatMap_nil, List.append_nil] at written
      refine ⟨t, .same ?_, written⟩
      rintro element ⟨-, digits, ending, -, isEnding, rfl⟩
      have closes : Text.ofString "]" = [CodePoint.ofChar ']'] := rfl
      rw [dropLineBreak_suffix isEnding, closes, ← List.append_assoc, ← List.append_assoc]
        at written
      rw [← written, List.getLast?_concat] at noBracket
      exact noBracket rfl
  | append_singleton sizes size inductionHypothesis =>
      have areOthers : ∀ other ∈ sizes, ∀ c ∈ other, c.isDecimalDigit = true :=
        fun other member => areSizes other (List.mem_append_left _ member)
      obtain ⟨ending, isEnding, whole⟩ := dropLineBreak_append t
      rw [arraySuffixes_concat, ← List.append_assoc] at written
      have elementOneLine : ∀ c ∈ base ++ arraySuffixes sizes, c ≠ '\n' :=
        fun c member => (List.mem_append.mp member).elim (oneLine c)
          (oneLine_arraySuffixes areOthers c)
      have isArray : IsArrayOf t (base ++ arraySuffixes sizes) :=
        ⟨elementOneLine, size, ending, areSizes size (by simp), isEnding, by
          rw [whole, written]⟩
      obtain ⟨rest, inside, isRest⟩ :=
        inductionHypothesis areOthers (dropLineBreak_of_oneLine elementOneLine)
      rw [List.length_append]
      exact ⟨rest, .array isArray inside, isRest⟩

end Text

namespace TypeExpression

/-- The bases that mean something, and what they stand for. -/
inductive StandsFor : (base : Text) → Base → Prop where
  | integer
      (isUnsigned : Bool)
      {digits : Text}
      (areDigits : ∀ c ∈ digits, c.isDecimalDigit = true) :
      StandsFor (integerWord isUnsigned ++ digits) (.integer isUnsigned digits)
  | address : StandsFor "address" (.plain (.named "Address"))
  | bool : StandsFor "bool" (.plain (.named "bool"))
  | fixedBytes
      {digits : Text}
      (notEmpty : digits ≠ [])
      (areDigits : ∀ c ∈ digits, c.isDecimalDigit = true) :
      StandsFor ("bytes" ++ digits) (.plain (.named ("Bytes" ++ digits)))
  | string : StandsFor "string" (.plain (.named "str"))
  | bytes : StandsFor "bytes" (.plain (.named "Bytes"))
  | tuple : StandsFor "tuple" .tuple
  | fixedPoint
      {sign bits places : Text}
      (isSign : sign = [] ∨ sign = "u")
      (hasBits : bits ≠ [])
      (areBits : ∀ c ∈ bits, c.isDecimalDigit = true)
      (hasPlaces : places ≠ [])
      (arePlaces : ∀ c ∈ places, c.isDecimalDigit = true) :
      StandsFor (sign ++ ("fixed" ++ (bits ++ ("x" ++ places)))) (.objection .fixedPoint)
  | function : StandsFor "function" (.objection .functionType)

theorem standsFor_of_isFixedPoint
    {base : Text}
    (isFixed : isFixedPoint base = true) :
    StandsFor base (.objection .fixedPoint) := by
  have hasSign :
      ∃ sign : Text,
        (sign = [] ∨ sign = "u") ∧ base = sign ++ (Text.dropStart? base "u").getD base := by
    cases unsigned : Text.dropStart? base "u" with
    | none =>
        exact ⟨[], Or.inl rfl, rfl⟩
    | some rest =>
        exact ⟨"u", Or.inr rfl, Text.eq_append_of_dropStart? unsigned⟩
  obtain ⟨sign, isSign, whole⟩ := hasSign
  rw [isFixedPoint] at isFixed
  split at isFixed
  case h_2 =>
    cases isFixed
  case h_1 sizes dropped =>
    rw [List.span_eq_takeWhile_dropWhile] at isFixed
    split at isFixed
    case h_2 =>
      cases isFixed
    case h_1 first bits mark digit digits isSplit =>
      rw [Bool.and_eq_true, decide_eq_true_eq] at isFixed
      obtain ⟨rfl, arePlaces⟩ := isFixed
      obtain ⟨areTaken, areLeft⟩ := Prod.mk.inj isSplit
      have areBits : ∀ c ∈ first :: bits, c.isDecimalDigit = true := by
        rw [← areTaken]
        exact fun c => List.mem_takeWhile_imp
      have written : sizes = (first :: bits) ++ ("x" ++ (digit :: digits)) := by
        rw [← List.takeWhile_append_dropWhile (p := CodePoint.isDecimalDigit) (l := sizes),
          areTaken, areLeft]
        rfl
      rw [whole, Text.eq_append_of_dropStart? dropped, written]
      exact .fixedPoint isSign (List.cons_ne_nil first bits) areBits
        (List.cons_ne_nil digit digits) (List.all_eq_true.mp arePlaces)

theorem isFixedPoint_append
    {sign bits places : Text}
    (isSign : sign = [] ∨ sign = "u")
    (hasBits : bits ≠ [])
    (areBits : ∀ c ∈ bits, c.isDecimalDigit = true)
    (hasPlaces : places ≠ [])
    (arePlaces : ∀ c ∈ places, c.isDecimalDigit = true) :
    isFixedPoint (sign ++ ("fixed" ++ (bits ++ ("x" ++ places)))) = true := by
  have withoutSign : ∀ rest : Text,
      (Text.dropStart? (sign ++ ("fixed" ++ rest)) "u").getD (sign ++ ("fixed" ++ rest)) =
        "fixed" ++ rest := by
    intro rest
    rcases isSign with rfl | rfl
    · have kept : Text.dropStart? (Text.ofString "fixed" ++ rest) "u" = none :=
        Text.dropStart?_cons_ne (by decide) _ _
      rw [List.nil_append, kept]
      rfl
    · rw [Text.dropStart?_append]
      rfl
  obtain ⟨first, others, rfl⟩ := List.exists_cons_of_ne_nil hasBits
  obtain ⟨digit, digits, rfl⟩ := List.exists_cons_of_ne_nil hasPlaces
  have mark : Text.ofString "x" = [CodePoint.ofChar 'x'] := rfl
  have noBit : CodePoint.isDecimalDigit (CodePoint.ofChar 'x') ≠ true := by
    decide
  rw [isFixedPoint, withoutSign, Text.dropStart?_append]
  simp only [List.span_eq_takeWhile_dropWhile]
  rw [List.takeWhile_append_of_pos areBits, List.dropWhile_append_of_pos areBits, mark,
    List.singleton_append, List.takeWhile_cons_of_neg noBit, List.dropWhile_cons_of_neg noBit,
    List.append_nil]
  simpa using arePlaces

theorem integerDigits?_append
    (isUnsigned : Bool)
    {digits : Text}
    (areDigits : ∀ c ∈ digits, c.isDecimalDigit = true) :
    integerDigits? (integerWord isUnsigned ++ digits) = some (isUnsigned, digits) := by
  have behindInt : Text.dropStart? (Text.ofString "int" ++ digits) "int" = some digits :=
    Text.dropStart?_append "int" digits
  have allDigits : digits.all CodePoint.isDecimalDigit = true :=
    List.all_eq_true.mpr areDigits
  cases isUnsigned with
  | true =>
      have unsigned : Text.dropStart? (integerWord true ++ digits) "u" =
          some (Text.ofString "int" ++ digits) :=
        Text.dropStart?_append "u" (Text.ofString "int" ++ digits)
      simp only [integerDigits?, unsigned, behindInt, allDigits, ↓reduceIte]
  | false =>
      have signed : Text.dropStart? (Text.ofString "int" ++ digits) "u" = none :=
        Text.dropStart?_cons_ne (by decide) _ _
      have isInt : integerWord false = Text.ofString "int" := rfl
      simp only [integerDigits?, isInt, signed, behindInt, allDigits, ↓reduceIte]

theorem integerDigits?_of_first
    {first : CodePoint}
    (notUnsigned : first ≠ 'u')
    (notSigned : first ≠ 'i')
    (rest : Text) :
    integerDigits? (first :: rest) = none := by
  have unsigned : Text.dropStart? (first :: rest) "u" = none :=
    Text.dropStart?_cons_ne notUnsigned rest _
  have signed : Text.dropStart? (first :: rest) "int" = none :=
    Text.dropStart?_cons_ne notSigned rest _
  simp only [integerDigits?, unsigned, signed]

theorem bytesDigits?_append
    {digits : Text}
    (notEmpty : digits ≠ [])
    (areDigits : ∀ c ∈ digits, c.isDecimalDigit = true) :
    bytesDigits? ("bytes" ++ digits) = some digits := by
  have allDigits : digits.all CodePoint.isDecimalDigit = true :=
    List.all_eq_true.mpr areDigits
  rw [bytesDigits?, Text.dropStart?_append]
  simp only [ne_eq, notEmpty, not_false_eq_true, allDigits, and_self, ↓reduceIte]

/-- Bases that begin otherwise than the words with a meaning are told apart at last. -/
theorem readBase_of_first
    {type rest : Text}
    {first : CodePoint}
    (isText : Text.dropLineBreak type = first :: rest)
    (noInteger : integerDigits? (first :: rest) = none)
    (notWord : first ∉ Text.ofString "abst") :
    readBase type =
      if isFixedPoint (first :: rest) then .objection .fixedPoint
      else if first :: rest = "function" then .objection .functionType
      else .objection (.unrecognized type) := by
  have differs :
      ∀ other ∈ Text.ofString "abst", ∀ others, first :: rest ≠ other :: others := by
    rintro other isOther others same
    rw [(List.cons.inj same).1] at notWord
    exact notWord isOther
  have notAddress : first :: rest ≠ "address" := differs 'a' (by decide) _
  have notBool : first :: rest ≠ "bool" := differs 'b' (by decide) _
  have notString : first :: rest ≠ "string" := differs 's' (by decide) _
  have notBytes : first :: rest ≠ "bytes" := differs 'b' (by decide) _
  have notTuple : first :: rest ≠ "tuple" := differs 't' (by decide) _
  have noBytes : bytesDigits? (first :: rest) = none := by
    cases sized : bytesDigits? (first :: rest) with
    | none =>
        rfl
    | some digits =>
        exact absurd (append_of_bytesDigits? sized).1 (differs 'b' (by decide) _)
  rw [readBase, isText]
  simp only [noInteger, noBytes, notAddress, notBool, notString, notBytes, notTuple, ↓reduceIte]

/-- A base that means something is told apart as what it stands for. -/
theorem readBase_of_standsFor
    {type : Text}
    {base : Base}
    (stands : StandsFor (Text.dropLineBreak type) base) :
    readBase type = base := by
  generalize isText : Text.dropLineBreak type = text at stands
  cases stands with
  | integer isUnsigned areDigits =>
      rw [readBase, isText, integerDigits?_append isUnsigned areDigits]
  | @fixedBytes digits notEmpty areDigits =>
      have noInteger : integerDigits? (Text.ofString "bytes" ++ digits) = none :=
        integerDigits?_of_first (by decide) (by decide) _
      have notAddress : Text.ofString "bytes" ++ digits ≠ "address" := by
        intro same
        exact absurd (List.cons.inj same).1 (by decide)
      have notBool : Text.ofString "bytes" ++ digits ≠ "bool" := by
        intro same
        exact absurd (List.cons.inj (List.cons.inj same).2).1 (by decide)
      rw [readBase, isText, noInteger]
      simp only [notAddress, notBool, bytesDigits?_append notEmpty areDigits, ↓reduceIte]
  | @fixedPoint sign bits places isSign hasBits areBits hasPlaces arePlaces =>
      have isFixed := isFixedPoint_append isSign hasBits areBits hasPlaces arePlaces
      rcases isSign with rfl | rfl
      · have noInteger :
            integerDigits? (Text.ofString "fixed" ++ (bits ++ ("x" ++ places))) = none :=
          integerDigits?_of_first (by decide) (by decide) _
        exact (readBase_of_first isText noInteger (by decide)).trans (if_pos isFixed)
      · have noInteger : integerDigits?
            (Text.ofString "u" ++ (Text.ofString "fixed" ++ (bits ++ ("x" ++ places)))) = none := by
          have signed :
              Text.dropStart? (Text.ofString "fixed" ++ (bits ++ ("x" ++ places))) "int" = none :=
            Text.dropStart?_cons_ne (by decide) _ _
          simp only [integerDigits?, Text.dropStart?_append, signed]
        exact (readBase_of_first isText noInteger (by decide)).trans (if_pos isFixed)
  | _ =>
      rw [readBase, isText]
      rfl

/-- A base means something, or it is told apart as one that is not recognised. -/
theorem standsFor_or_unrecognized
    (type : Text) :
    StandsFor (Text.dropLineBreak type) (readBase type) ∨
      readBase type = .objection (.unrecognized type) := by
  rw [readBase]
  generalize Text.dropLineBreak type = base
  cases isInteger : integerDigits? base with
  | some read =>
      obtain ⟨rfl, areDigits⟩ := append_of_integerDigits? isInteger
      exact Or.inl (.integer read.1 areDigits)
  | none =>
      cases isSized : bytesDigits? base with
      | some digits =>
          obtain ⟨rfl, notEmpty, areDigits⟩ := append_of_bytesDigits? isSized
          dsimp only
          split_ifs with isAddress isBool
          · rw [isAddress]
            exact Or.inl .address
          · rw [isBool]
            exact Or.inl .bool
          · exact Or.inl (.fixedBytes notEmpty areDigits)
      | none =>
          dsimp only
          split_ifs with isAddress isBool isString isBytes isTuple isFixed isFunction
          · exact Or.inl (isAddress ▸ .address)
          · exact Or.inl (isBool ▸ .bool)
          · exact Or.inl (isString ▸ .string)
          · exact Or.inl (isBytes ▸ .bytes)
          · exact Or.inl (isTuple ▸ .tuple)
          · exact Or.inl (standsFor_of_isFixedPoint isFixed)
          · exact Or.inl (isFunction ▸ .function)
          · exact Or.inr rfl

/-- A base is told apart as what it stands for, and is not recognised if it means nothing. -/
theorem readBase_eq_iff
    {type : Text}
    {base : Base} :
    readBase type = base ↔
      StandsFor (Text.dropLineBreak type) base ∨
        (∀ other, ¬ StandsFor (Text.dropLineBreak type) other) ∧
          base = .objection (.unrecognized type) := by
  constructor
  · rintro rfl
    refine (standsFor_or_unrecognized type).imp_right fun unknown => ⟨?_, unknown⟩
    intro other stands
    rw [← readBase_of_standsFor stands, unknown] at stands
    generalize Text.dropLineBreak type = base at stands
    cases stands
  · rintro (stands | ⟨nothing, rfl⟩)
    · exact readBase_of_standsFor stands
    · exact (standsFor_or_unrecognized type).resolve_left (nothing _)

theorem standsFor_of_readBase
    {type : Text}
    {base : Base}
    (found : readBase type = base)
    (isMeant : ∀ objection, base ≠ .objection objection) :
    StandsFor (Text.dropLineBreak type) base :=
  (readBase_eq_iff.mp found).resolve_right fun ⟨_, isObjection⟩ => isMeant _ isObjection

/-- A base stands for one thing. -/
theorem StandsFor.unique
    {type : Text}
    {first second : Base}
    (standsForFirst : StandsFor (Text.dropLineBreak type) first)
    (standsForSecond : StandsFor (Text.dropLineBreak type) second) :
    first = second :=
  (readBase_of_standsFor standsForFirst).symm.trans (readBase_of_standsFor standsForSecond)

theorem StandsFor.letters_digits
    {text : Text}
    {base : Base}
    (stands : StandsFor text base) :
    ∀ c ∈ text, c.isAsciiLetter = true ∨ c.isDecimalDigit = true := by
  have ofWord :
      ∀ {word : Text}, word.all CodePoint.isAsciiLetter = true →
        ∀ c ∈ word, c.isAsciiLetter = true ∨ c.isDecimalDigit = true :=
    fun areLetters c member => Or.inl (List.all_eq_true.mp areLetters c member)
  have ofNumber :
      ∀ {digits : Text}, (∀ c ∈ digits, c.isDecimalDigit = true) →
        ∀ c ∈ digits, c.isAsciiLetter = true ∨ c.isDecimalDigit = true :=
    fun areDigits c member => Or.inr (areDigits c member)
  cases stands with
  | integer isUnsigned areDigits =>
      exact List.forall_mem_append.mpr
        ⟨ofWord (by cases isUnsigned <;> decide), ofNumber areDigits⟩
  | fixedBytes _ areDigits =>
      exact List.forall_mem_append.mpr ⟨ofWord (by decide), ofNumber areDigits⟩
  | fixedPoint isSign _ areBits _ arePlaces =>
      simp only [List.forall_mem_append]
      refine ⟨ofWord ?_, ofWord (by decide), ofNumber areBits, ofWord (by decide),
        ofNumber arePlaces⟩
      rcases isSign with rfl | rfl <;> decide
  | _ =>
      exact ofWord (by decide)

/-- A base that means something is a single line, and no bracket ends it. -/
theorem StandsFor.oneLine
    {text : Text}
    {base : Base}
    (stands : StandsFor text base) :
    (∀ c ∈ text, c ≠ '\n') ∧ text.getLast? ≠ some ']' := by
  constructor
  · rintro c member rfl
    exact absurd (stands.letters_digits _ member) (by decide)
  · intro last
    exact absurd (stands.letters_digits _ (List.mem_of_getLast? last)) (by decide)

end TypeExpression

end ContractBindings
