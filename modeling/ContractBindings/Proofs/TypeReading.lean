import ContractBindings.Proofs.DeclaredType
import ContractBindings.Proofs.Texts

namespace ContractBindings

/-!
# Types in signatures are read

The reader of types finds in the text of a valid type its form, and in the form
the type that values are encoded under, as long as the text stays below the
limits of the reader.  The induction runs over the declared type; since a type
is followed by the suffixes of the arrays around it, it is carried out for any
list of suffixes behind the type.
-/

namespace TypeForm

/-- A text that can stand behind a word: nothing, or what begins with a bracket,
a comma or a closing parenthesis. -/
def Delimits (rest : Text) : Prop :=
  ∀ c, rest.head? = some c → c = '[' ∨ c = ',' ∨ c = ')'

/-- A text that can stand behind a type in a list of types. -/
def Ends (rest : Text) : Prop :=
  ∀ c, rest.head? = some c → c = ',' ∨ c = ')'

theorem Ends.delimits
    {rest : Text}
    (ends : Ends rest) :
    Delimits rest :=
  fun c first => Or.inr (ends c first)

/-- Nothing of a class stands in front of a delimiter that is outside the class. -/
theorem Delimits.takeWhile_eq_nil
    {rest : Text}
    (delimits : Delimits rest)
    {inClass : CodePoint → Bool}
    (outside : inClass '[' = false ∧ inClass ',' = false ∧ inClass ')' = false) :
    rest.takeWhile inClass = [] := by
  cases rest with
  | nil =>
      rfl
  | cons c rest =>
      refine List.takeWhile_cons_of_neg ?_
      rcases delimits c rfl with isBracket | isComma | isParenthesis
      · simp [isBracket, outside.1]
      · simp [isComma, outside.2.1]
      · simp [isParenthesis, outside.2.2]

/-- No size stands in front of a delimiter. -/
theorem Delimits.readSize_eq_none
    {rest : Text}
    (delimits : Delimits rest) :
    readSize rest = none := by
  rw [readSize, delimits.takeWhile_eq_nil (by decide)]

/-- A delimiter is no mark between two sizes. -/
theorem Delimits.dropStart?_mark
    {rest : Text}
    (delimits : Delimits rest) :
    Text.dropStart? rest "x" = none := by
  cases rest with
  | nil =>
      rfl
  | cons c rest =>
      refine Text.dropStart?_cons_ne ?_ rest []
      rcases delimits c rfl with same | same | same <;> rw [same] <;> decide

/-- What ends a type is no array suffix. -/
theorem Ends.dropStart?_bracket
    {rest : Text}
    (ends : Ends rest) :
    Text.dropStart? rest "[" = none := by
  cases rest with
  | nil =>
      rfl
  | cons c rest =>
      refine Text.dropStart?_cons_ne ?_ rest []
      rcases ends c rfl with same | same <;> rw [same] <;> decide

/-- A written number other than zero is read as a size, up to what is no digit. -/
theorem readSize_ofNat
    {n : Nat}
    (notZero : n ≠ 0)
    {rest : Text}
    (noDigit : rest.takeWhile CodePoint.isAsciiDigit = []) :
    readSize (Text.ofNat n ++ rest) = some (Text.ofNat n, rest) := by
  have digits : ∀ c ∈ Text.ofNat n, c.isAsciiDigit = true :=
    fun c member => (Text.isDigit_of_mem_ofNat member).1
  have pastDigits : rest.dropWhile CodePoint.isAsciiDigit = rest := by
    have whole := List.takeWhile_append_dropWhile (p := CodePoint.isAsciiDigit) (l := rest)
    rwa [noDigit, List.nil_append] at whole
  rw [readSize, List.takeWhile_append_of_pos digits, List.dropWhile_append_of_pos digits,
    noDigit, List.append_nil, pastDigits]
  obtain ⟨first, others, written, notZeroDigit⟩ := Text.ofNat_eq_cons n
  rw [written]
  simp only [notZeroDigit notZero, ↓reduceIte]

/-- The sizes behind the word of a number are read. -/
theorem readSizes_digits
    {width : Option Nat}
    (notZero : width ≠ some 0)
    {rest : Text}
    (delimits : Delimits rest) :
    readSizes (ScalarType.digits width ++ rest) = (ScalarType.sizes width, rest) := by
  cases width with
  | none =>
      rw [readSizes]
      simp only [ScalarType.digits, Option.map_none, Option.getD_none, List.nil_append,
        delimits.readSize_eq_none, ScalarType.sizes]
  | some n =>
      have isSize := readSize_ofNat (n := n) (by simpa using notZero)
        (delimits.takeWhile_eq_nil (by decide))
      rw [readSizes]
      simp only [ScalarType.digits, Option.map_some, Option.getD_some, isSize,
        delimits.dropStart?_mark, Option.bind_none, ScalarType.sizes]

/-- A word is read with the sizes behind it. -/
theorem readWord_append
    {first : CodePoint}
    {letters : Text}
    (areLetters : (first :: letters).all CodePoint.isAsciiLetter = true)
    {width : Option Nat}
    (notZero : width ≠ some 0)
    {rest : Text}
    (delimits : Delimits rest) :
    readWord (first :: letters ++ (ScalarType.digits width ++ rest)) =
      .ok (.word (first :: letters) (ScalarType.sizes width), rest) := by
  have noLetter : (ScalarType.digits width ++ rest).takeWhile CodePoint.isAsciiLetter = [] := by
    cases width with
    | none =>
        exact delimits.takeWhile_eq_nil (by decide)
    | some n =>
        obtain ⟨digit, digits, written, -⟩ := Text.ofNat_eq_cons n
        have isDigit : digit.isAsciiDigit = true :=
          (Text.isDigit_of_mem_ofNat (n := n) (by rw [written]; simp)).1
        have notLetter : digit.isAsciiLetter = false := by
          simp only [CodePoint.isAsciiDigit, Bool.and_eq_true, decide_eq_true_eq] at isDigit
          simp only [CodePoint.isAsciiLetter, Bool.or_eq_false_iff, Bool.and_eq_false_iff,
            decide_eq_false_iff_not]
          omega
        simp [ScalarType.digits, written, notLetter]
  have pastLetters : (ScalarType.digits width ++ rest).dropWhile CodePoint.isAsciiLetter =
      ScalarType.digits width ++ rest := by
    have whole := List.takeWhile_append_dropWhile (p := CodePoint.isAsciiLetter)
      (l := ScalarType.digits width ++ rest)
    rwa [noLetter, List.nil_append] at whole
  rw [readWord, List.takeWhile_append_of_pos (List.all_eq_true.mp areLetters),
    List.dropWhile_append_of_pos (List.all_eq_true.mp areLetters), noLetter, List.append_nil,
    pastLetters, readSizes_digits notZero delimits]

/-- A valid scalar type is read as its word with its size. -/
theorem readWord_text
    {type : ScalarType}
    (valid : type.isValid = true)
    {rest : Text}
    (delimits : Delimits rest) :
    readWord (type.text ++ rest) = .ok (type.form, rest) := by
  have wide : ∀ width : Option Nat, width.all AbiType.isWidth = true → width ≠ some 0 := by
    rintro width isWidth rfl
    simp [AbiType.isWidth] at isWidth
  cases type with
  | uint width =>
      rw [ScalarType.text, List.append_assoc]
      exact readWord_append (by decide) (wide width valid) delimits
  | int width =>
      rw [ScalarType.text, List.append_assoc]
      exact readWord_append (by decide) (wide width valid) delimits
  | fixedBytes size =>
      simp only [ScalarType.isValid, Bool.and_eq_true, decide_eq_true_eq] at valid
      rw [ScalarType.text, List.append_assoc]
      exact readWord_append (by decide)
        (by simp only [ne_eq, Option.some.injEq]; omega : some size ≠ some 0) delimits
  | _ =>
      exact readWord_append (by decide) (by simp : none ≠ some 0) delimits

/-- A scalar type begins with a letter, and so does not open a parenthesis. -/
theorem dropStart?_text
    (type : ScalarType)
    (rest : Text) :
    Text.dropStart? (type.text ++ rest) "(" = none := by
  cases type <;> exact Text.dropStart?_cons_ne (by decide) _ _

/-- A form with array suffixes around it, the innermost array first. -/
def within (form : TypeForm) (sizes : List (Option Nat)) : TypeForm :=
  sizes.foldl (fun element size => .array element (size.map Text.ofNat)) form

/-- The text of array suffixes. -/
def suffixes (sizes : List (Option Nat)) : Text :=
  sizes.flatMap DeclaredType.suffix

/-- A suffix, or what ends a type, delimits a word. -/
theorem delimits_suffixes
    (sizes : List (Option Nat))
    {rest : Text}
    (ends : Ends rest) :
    Delimits (suffixes sizes ++ rest) := by
  cases sizes with
  | nil =>
      exact ends.delimits
  | cons size sizes =>
      intro c first
      have isBracket : some (CodePoint.ofChar '[') = some c := first
      exact Or.inl (Option.some.inj isBracket).symm

/-- Where no suffix begins nothing is read. -/
theorem readSuffixes_of_notOpened
    {t : Text}
    (notOpened : Text.dropStart? t "[" = none)
    (fuel : Nat)
    (form : TypeForm) :
    readSuffixes fuel form t = (form, t) := by
  cases fuel with
  | zero =>
      rfl
  | succ fuel =>
      rw [readSuffixes, notOpened]

/-- A suffix puts one more array around the form that was read so far. -/
theorem readSuffixes_suffix
    {size : Option Nat}
    (notZero : size ≠ some 0)
    (fuel : Nat)
    (form : TypeForm)
    (rest : Text) :
    readSuffixes (fuel + 1) form ("[" ++ (ScalarType.digits size ++ ("]" ++ rest))) =
      readSuffixes fuel (.array form (size.map Text.ofNat)) rest := by
  rw [readSuffixes, Text.dropStart?_append]
  cases size with
  | none =>
      simp only [ScalarType.digits, Option.map_none, Option.getD_none, List.nil_append,
        Text.dropStart?_append]
  | some n =>
      have noDigit : ("]" ++ rest).takeWhile CodePoint.isAsciiDigit = [] :=
        List.takeWhile_cons_of_neg (by decide)
      have isSize := readSize_ofNat (n := n) (by simpa using notZero) noDigit
      obtain ⟨digit, digits, written, -⟩ := Text.ofNat_eq_cons n
      have isDigit : digit.isAsciiDigit = true :=
        (Text.isDigit_of_mem_ofNat (n := n) (by rw [written]; simp)).1
      have notClosed : Text.dropStart? (Text.ofNat n ++ ("]" ++ rest)) "]" = none := by
        rw [written]
        refine Text.dropStart?_cons_ne ?_ _ _
        rintro rfl
        revert isDigit
        decide
      simp only [ScalarType.digits, Option.map_some, Option.getD_some, notClosed, isSize,
        Text.dropStart?_append]

/-- Array suffixes are read, the innermost array first, up to the end of the type. -/
theorem readSuffixes_suffixes
    {sizes : List (Option Nat)}
    (notZero : ∀ size ∈ sizes, size ≠ some 0)
    {rest : Text}
    (ends : Ends rest)
    {fuel : Nat}
    (enough : sizes.length ≤ fuel)
    (form : TypeForm) :
    readSuffixes fuel form (suffixes sizes ++ rest) = (form.within sizes, rest) := by
  induction sizes generalizing fuel form with
  | nil =>
      exact readSuffixes_of_notOpened ends.dropStart?_bracket fuel form
  | cons size sizes inductionHypothesis =>
      obtain ⟨ofFirst, ofOthers⟩ := List.forall_mem_cons.mp notZero
      cases fuel with
      | zero =>
          simp at enough
      | succ fuel =>
          have fewer : sizes.length ≤ fuel := by
            simpa using enough
          have opened : suffixes (size :: sizes) ++ rest =
              "[" ++ (ScalarType.digits size ++ ("]" ++ (suffixes sizes ++ rest))) := by
            simp [suffixes, DeclaredType.suffix]
          rw [opened, readSuffixes_suffix ofFirst]
          exact inductionHypothesis ofOthers fewer _

theorem length_text_pos
    (type : ScalarType) :
    0 < type.text.length := by
  cases type <;> exact Nat.succ_pos _

/-- Every suffix has at least one code point. -/
theorem length_le_length_suffixes
    (sizes : List (Option Nat)) :
    sizes.length ≤ (suffixes sizes).length := by
  induction sizes with
  | nil =>
      exact Nat.le_refl 0
  | cons size sizes inductionHypothesis =>
      have bracket : 0 < (DeclaredType.suffix size).length :=
        Nat.succ_pos _
      simp only [suffixes, List.flatMap_cons, List.length_append, List.length_cons] at *
      omega

/-- A type is read from its signature, whatever array suffixes and whatever end
of the type follow. -/
def Reads (type : DeclaredType) : Prop :=
  ∀ (sizes : List (Option Nat)) (rest : Text) (fuel room : Nat),
    (∀ size ∈ sizes, size ≠ some 0) → Ends rest →
      2 * type.signature.length ≤ fuel → type.parentheses ≤ room →
        readForm fuel room (type.signature ++ (suffixes sizes ++ rest)) =
          .ok (type.form.within sizes, rest)

theorem reads_scalar
    {type : ScalarType}
    (valid : type.isValid = true) :
    Reads (.scalar type) := by
  intro sizes rest fuel room notZero ends enough _
  rw [DeclaredType.signature] at enough ⊢
  have positive := length_text_pos type
  obtain ⟨fuel, rfl⟩ : ∃ less, fuel = less + 1 := ⟨fuel - 1, by omega⟩
  have longEnough : sizes.length ≤ (suffixes sizes ++ rest).length := by
    have suffixesLength := length_le_length_suffixes sizes
    rw [List.length_append]
    omega
  have isWord := readWord_text valid (delimits_suffixes sizes ends)
  rw [readForm, dropStart?_text]
  simp only [isWord, Except.map, readSuffixes_suffixes notZero ends longEnough,
    DeclaredType.form]

theorem reads_array
    {element : DeclaredType}
    {size : Option Nat}
    (notEmpty : size ≠ some 0)
    (reads : Reads element) :
    Reads (.array element size) := by
  intro sizes rest fuel room notZero ends enough nesting
  simp only [DeclaredType.signature, List.length_append] at enough
  have readElement := reads (size :: sizes) rest fuel room
    (by
      intro other member
      rcases List.mem_cons.mp member with isSize | inSizes
      · exact isSize ▸ notEmpty
      · exact notZero other inSizes)
    ends (by omega) nesting
  rw [DeclaredType.signature, List.append_assoc]
  simp only [suffixes, List.flatMap_cons, List.append_assoc] at readElement
  rw [suffixes, readElement]
  rfl

/-- The members of a tuple are read up to the closing parenthesis. -/
theorem readMembers_signatures
    {components : Declarations}
    (notEmpty : components ≠ [])
    (reads : ∀ component ∈ components, Reads component.2)
    {fuel room : Nat}
    (enough :
      2 * (Text.join "," (DeclaredType.signatures components)).length + 1 ≤ fuel)
    (nesting : DeclaredType.mostParentheses components ≤ room)
    (rest : Text) :
    readMembers fuel room
        (Text.join "," (DeclaredType.signatures components) ++ (")" ++ rest)) =
      .ok (DeclaredType.forms components, rest) := by
  have closes : Ends (")" ++ rest) :=
    fun c first => Or.inr (Option.some.inj first).symm
  induction components generalizing fuel with
  | nil =>
      exact absurd rfl notEmpty
  | cons component others inductionHypothesis =>
      obtain ⟨name, type⟩ := component
      rw [DeclaredType.mostParentheses] at nesting
      obtain ⟨fuel, rfl⟩ : ∃ less, fuel = less + 1 := ⟨fuel - 1, by omega⟩
      have readType : Reads type :=
        reads (name, type) (by simp)
      have readFirst := fun t ends inFuel =>
        readType [] t fuel room (by simp) ends inFuel (by omega)
      simp only [suffixes, List.flatMap_nil, List.nil_append, within,
        List.foldl_nil] at readFirst
      cases others with
      | nil =>
          simp only [DeclaredType.signatures, Text.join_singleton] at enough ⊢
          rw [readMembers, readFirst _ closes (by omega)]
          simp only [Text.dropStart?_append, DeclaredType.forms]
      | cons second others =>
          have separates : Ends ("," ++ (Text.join ","
              (DeclaredType.signatures (second :: others)) ++ (")" ++ rest))) :=
            fun c first => Or.inl (Option.some.inj first).symm
          have noEnd : Text.dropStart? ("," ++ (Text.join ","
              (DeclaredType.signatures (second :: others)) ++ (")" ++ rest))) ")" = none :=
            Text.dropStart?_cons_ne (by decide) _ _
          obtain ⟨secondName, secondType⟩ := second
          simp only [DeclaredType.signatures, Text.join_cons_cons, List.length_append,
            List.append_assoc] at enough separates noEnd inductionHypothesis ⊢
          have comma : (Text.ofString ",").length = 1 := rfl
          have othersEnough :
              2 * (Text.join "," (secondType.signature ::
                DeclaredType.signatures others)).length + 1 ≤ fuel := by
            omega
          have readOthers := inductionHypothesis (by simp)
            (fun other member => reads other (List.mem_cons_of_mem _ member))
            othersEnough (by omega)
          rw [readMembers, readFirst _ separates (by omega)]
          simp only [noEnd, Text.dropStart?_append, readOthers, Except.map,
            DeclaredType.forms]

theorem reads_tuple
    {components : Declarations}
    (notEmpty : components ≠ [])
    (reads : ∀ component ∈ components, Reads component.2) :
    Reads (.tuple components) := by
  intro sizes rest fuel room notZero ends enough nesting
  have opening : (Text.ofString "(").length = 1 := rfl
  have closing : (Text.ofString ")").length = 1 := rfl
  simp only [DeclaredType.signature, List.length_append, opening, closing] at enough
  rw [DeclaredType.parentheses] at nesting
  obtain ⟨fuel, rfl⟩ : ∃ less, fuel = less + 1 := ⟨fuel - 1, by omega⟩
  have longEnough : sizes.length ≤ (suffixes sizes ++ rest).length := by
    have suffixesLength := length_le_length_suffixes sizes
    rw [List.length_append]
    omega
  have membersEnough :
      2 * (Text.join "," (DeclaredType.signatures components)).length + 1 ≤ fuel := by
    omega
  have membersNesting : DeclaredType.mostParentheses components ≤ room - 1 := by
    omega
  have members := readMembers_signatures notEmpty reads membersEnough membersNesting
    (suffixes sizes ++ rest)
  have isOpen : ¬ room = 0 := by
    omega
  rw [DeclaredType.signature, List.append_assoc, List.append_assoc, readForm,
    Text.dropStart?_append]
  simp only [isOpen, ↓reduceIte, members, Except.map,
    readSuffixes_suffixes notZero ends longEnough, DeclaredType.form]

end TypeForm

namespace DeclaredType

/-- Every valid type is read from its signature. -/
theorem reads_of_isValid
    (type : DeclaredType)
    (valid : type.isValid = true) :
    TypeForm.Reads type := by
  induction type using inductionOnComponents with
  | scalar type =>
      exact TypeForm.reads_scalar valid
  | array element size inductionHypothesis =>
      obtain ⟨elementValid, notEmpty⟩ := isValid_array_iff.mp valid
      exact TypeForm.reads_array notEmpty (inductionHypothesis elementValid)
  | tuple components inductionHypothesis =>
      obtain ⟨componentsValid, notEmpty⟩ := isValid_tuple_iff.mp valid
      exact TypeForm.reads_tuple notEmpty fun component member =>
        inductionHypothesis component member (componentsValid component member)

/-- The form of a valid type is read from its signature, unless too many
parentheses stand in each other. -/
theorem typeForm_ofText_signature
    {type : DeclaredType}
    (valid : type.isValid = true)
    (nesting : type.parentheses ≤ TypeForm.greatestNesting) :
    TypeForm.ofText type.signature = .ok type.form := by
  have atEnd : TypeForm.Ends [] := by
    intro c first
    cases first
  have read := reads_of_isValid type valid [] [] (2 * type.signature.length + 1)
    TypeForm.greatestNesting (by simp) atEnd (by omega) nesting
  simp only [TypeForm.suffixes, List.flatMap_nil, List.append_nil, TypeForm.within,
    List.foldl_nil] at read
  rw [TypeForm.ofText, read]
  rfl

/-- The form of a valid scalar type means the type that it is encoded under. -/
theorem ofForm?_scalar
    {type : ScalarType}
    (valid : type.isValid = true) :
    AbiType.ofForm? type.form = some type.abiType := by
  cases type with
  | uint width =>
      cases width with
      | none =>
          rfl
      | some n =>
          have isWidth : AbiType.isWidth n = true := by
            simpa [ScalarType.isValid] using valid
          change AbiType.ofSizedWord? "uint" (AbiType.numberOf (Text.ofNat n)) = _
          rw [Text.numberOf_ofNat, AbiType.ofSizedWord?, if_pos rfl, if_pos isWidth]
          rfl
  | int width =>
      cases width with
      | none =>
          rfl
      | some n =>
          have isWidth : AbiType.isWidth n = true := by
            simpa [ScalarType.isValid] using valid
          change AbiType.ofSizedWord? "int" (AbiType.numberOf (Text.ofNat n)) = _
          rw [Text.numberOf_ofNat, AbiType.ofSizedWord?, if_neg (by decide), if_pos rfl,
            if_pos isWidth]
          rfl
  | fixedBytes size =>
      simp only [ScalarType.isValid, Bool.and_eq_true, decide_eq_true_eq] at valid
      change AbiType.ofSizedWord? "bytes" (AbiType.numberOf (Text.ofNat size)) = _
      rw [Text.numberOf_ofNat, AbiType.ofSizedWord?, if_neg (by decide),
        if_neg (by decide), if_pos rfl, if_pos valid.2]
      rfl
  | _ =>
      rfl

/-- The forms of several types mean the types that their values are encoded under,
if each of them does. -/
theorem ofForms?_forms
    {declarations : Declarations}
    (meant :
      ∀ declaration ∈ declarations,
        AbiType.ofForm? declaration.2.form = some declaration.2.abiType) :
    AbiType.ofForms? (forms declarations) = some (abiTypes declarations) := by
  induction declarations with
  | nil =>
      rfl
  | cons declaration declarations inductionHypothesis =>
      have others := inductionHypothesis fun other member =>
        meant other (List.mem_cons_of_mem _ member)
      rw [forms, AbiType.ofForms?, meant declaration (by simp), others]
      rfl

/-- The form of a valid type means the type that its values are encoded under. -/
theorem ofForm?_form
    (type : DeclaredType)
    (valid : type.isValid = true) :
    AbiType.ofForm? type.form = some type.abiType := by
  induction type using inductionOnComponents with
  | scalar type =>
      exact ofForm?_scalar valid
  | array element size inductionHypothesis =>
      rw [form, AbiType.ofForm?, inductionHypothesis (isValid_array_iff.mp valid).1]
      cases size with
      | none =>
          rfl
      | some n =>
          simp [abiType]
  | tuple components inductionHypothesis =>
      rw [form, AbiType.ofForm?, ofForms?_forms fun component member =>
        inductionHypothesis component member
          ((isValid_tuple_iff.mp valid).1 component member)]
      rfl

/-- No type is written by the word that stands for a type only inside of others. -/
theorem signature_ne_byte
    {type : DeclaredType}
    (valid : type.isValid = true)
    (nesting : type.parentheses ≤ TypeForm.greatestNesting) :
    type.signature ≠ "byte" := by
  intro isByte
  have read := typeForm_ofText_signature valid nesting
  have readByte : TypeForm.ofText "byte" = .ok (.word "byte" .none) := rfl
  rw [isByte, readByte, Except.ok.injEq] at read
  have otherWords :
      ∀ scalar : ScalarType, TypeForm.word (Text.ofString "byte") .none ≠ scalar.form := by
    intro scalar
    cases scalar <;> exact fun same => absurd (TypeForm.word.inj same).1 (by decide)
  cases type with
  | scalar scalar =>
      exact otherWords scalar read
  | array element size =>
      cases read
  | tuple components =>
      cases read

/-- A valid type is read from its signature, if that stays below the limits. -/
theorem ofText_signature
    {type : DeclaredType}
    (valid : type.isValid = true)
    (readable : type.isReadable = true) :
    AbiType.ofText type.signature = .ok type.abiType := by
  simp only [isReadable, Bool.and_eq_true, decide_eq_true_eq, List.all_eq_true] at readable
  obtain ⟨⟨nesting, levels⟩, sizes⟩ := readable
  have noLongSize : (type.form.sizes.any fun size =>
      decide (AbiType.greatestSizeLength < size.length)) = false := by
    simp only [List.any_eq_false, decide_eq_true_eq]
    intro size member
    have short := sizes size member
    omega
  rw [AbiType.ofText, typeForm_ofText_signature valid nesting]
  simp only [noLongSize, Bool.false_eq_true, ↓reduceIte, Nat.not_lt.mpr levels,
    signature_ne_byte valid nesting, ofForm?_form type valid]

theorem ofText_signature_longSize
    {type : DeclaredType}
    (valid : type.isValid = true)
    (nesting : type.parentheses ≤ TypeForm.greatestNesting)
    {size : Text}
    (member : size ∈ type.form.sizes)
    (long : AbiType.greatestSizeLength < size.length) :
    AbiType.ofText type.signature = .error .longSize := by
  have longSize : (type.form.sizes.any fun size =>
      decide (AbiType.greatestSizeLength < size.length)) = true :=
    List.any_eq_true.mpr ⟨size, member, by simpa using long⟩
  rw [AbiType.ofText, typeForm_ofText_signature valid nesting]
  simp only [longSize, ↓reduceIte]

/-- A type with too many levels is refused, unless the digits of a size are too many. -/
theorem ofText_signature_tooNested
    {type : DeclaredType}
    (valid : type.isValid = true)
    (nesting : type.parentheses ≤ TypeForm.greatestNesting)
    (noLongSize :
      (type.form.sizes.any fun size => AbiType.greatestSizeLength < size.length) = false)
    (deep : AbiType.greatestLevels < type.form.levels) :
    AbiType.ofText type.signature = .error .tooNested := by
  rw [AbiType.ofText, typeForm_ofText_signature valid nesting]
  simp only [noLongSize, Bool.false_eq_true, ↓reduceIte, deep]

end DeclaredType

end ContractBindings
