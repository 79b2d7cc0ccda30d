import ContractBindings.Proofs.TypeReading

namespace ContractBindings

/-!
# Descriptions of declared types

What the codec reads off descriptions of declared types: the layout of their
values, the keys of components and the types as signatures write them.  A type
is its innermost element with array suffixes behind it, both in a description
and in a signature, and only the innermost element is written differently there.
-/

namespace ScalarType

/-- The digits of a size count among letters and digits. -/
theorem isAsciiWord_of_mem_digits
    (size : Option Nat)
    {c : CodePoint}
    (member : c ∈ digits size) :
    c.isAsciiWord = true := by
  cases size with
  | none =>
      cases member
  | some n =>
      rw [CodePoint.isAsciiWord, (Text.isDigit_of_mem_ofNat member).1, Bool.or_true]
      rfl

/-- The text of a scalar type consists of letters and digits. -/
theorem isAsciiWord_of_mem_text
    {type : ScalarType}
    {c : CodePoint}
    (member : c ∈ type.text) :
    c.isAsciiWord = true := by
  have ofWord :
      ∀ word : Text, word.all CodePoint.isAsciiWord = true → c ∈ word →
        c.isAsciiWord = true :=
    fun word allWord inWord => List.all_eq_true.mp allWord c inWord
  cases type with
  | uint width =>
      exact (List.mem_append.mp member).elim (ofWord _ (by decide))
        (isAsciiWord_of_mem_digits width)
  | int width =>
      exact (List.mem_append.mp member).elim (ofWord _ (by decide))
        (isAsciiWord_of_mem_digits width)
  | fixedBytes size =>
      exact (List.mem_append.mp member).elim (ofWord _ (by decide))
        (isAsciiWord_of_mem_digits (some size))
  | _ =>
      exact ofWord _ (by decide) member

/-- Letters and digits are neither brackets nor line breaks. -/
theorem ne_of_isAsciiWord
    {c : CodePoint}
    (isWord : c.isAsciiWord = true) :
    c ≠ ']' ∧ c ≠ '\n' := by
  refine ⟨?_, ?_⟩ <;> rintro rfl <;> revert isWord <;> decide

/-- Letters and digits are no surrogates. -/
theorem isScalar_of_isAsciiWord
    {c : CodePoint}
    (isWord : c.isAsciiWord = true) :
    (! c.isSurrogate) = true := by
  simp only [CodePoint.isAsciiWord, CodePoint.isAsciiLetter, CodePoint.isAsciiDigit,
    Bool.or_eq_true, Bool.and_eq_true, decide_eq_true_eq] at isWord
  simp only [CodePoint.isSurrogate, Bool.not_eq_true', Bool.and_eq_false_iff,
    decide_eq_false_iff_not]
  rcases isWord with (letter | digit) | rfl
  · omega
  · omega
  · exact Or.inl (by decide)

/-- The text of a scalar type ends with a letter or a digit. -/
theorem reverse_text
    (type : ScalarType) :
    ∃ last rest, type.text.reverse = last :: rest ∧ last.isAsciiWord = true := by
  cases reversed : type.text.reverse with
  | nil =>
      have positive := TypeForm.length_text_pos type
      rw [← List.length_reverse, reversed] at positive
      exact absurd positive (Nat.lt_irrefl 0)
  | cons last rest =>
      have inText : last ∈ type.text := by
        rw [← List.mem_reverse, reversed]
        simp
      exact ⟨last, rest, rfl, isAsciiWord_of_mem_text inText⟩

/-- A scalar type has no array suffix. -/
theorem dropArraySuffix?_text
    (type : ScalarType) :
    Text.dropArraySuffix? type.text = none := by
  obtain ⟨last, rest, reversed, isWord⟩ := type.reverse_text
  have neither := ne_of_isAsciiWord isWord
  exact Text.dropArraySuffix?_eq_none reversed neither.1 neither.2

/-- No scalar type is written like a tuple. -/
theorem dropStart?_tuple
    (type : ScalarType)
    (rest : Text) :
    Text.dropStart? (type.text ++ rest) "tuple" = none := by
  cases type <;> exact Text.dropStart?_cons_ne (by decide) _ _

theorem digits_injective
    {a b : Option Nat}
    (sameDigits : digits a = digits b) :
    a = b := by
  cases a with
  | none =>
      cases b with
      | none =>
          rfl
      | some n =>
          exact absurd sameDigits.symm (Text.ofNat_ne_nil n)
  | some m =>
      cases b with
      | none =>
          exact absurd sameDigits (Text.ofNat_ne_nil m)
      | some n =>
          rw [Text.ofNat_injective sameDigits]

/-- Different scalar types are written differently. -/
theorem text_injective
    {a b : ScalarType}
    (sameText : a.text = b.text) :
    a = b := by
  cases a <;> cases b <;> try first
    | rfl
    | exact absurd (List.cons.inj sameText).1 (by decide)
    | exact absurd (List.cons.inj (List.cons.inj sameText).2).1 (by decide)
  case uint.uint m n =>
    rw [digits_injective (List.append_cancel_left sameText)]
  case int.int m n =>
    rw [digits_injective (List.append_cancel_left sameText)]
  case fixedBytes.fixedBytes m n =>
    rw [Text.ofNat_injective (List.append_cancel_left sameText)]
  case fixedBytes.bytes n =>
    exact absurd (List.append_right_eq_self.mp sameText) (Text.ofNat_ne_nil n)
  case bytes.fixedBytes n =>
    exact absurd (List.append_right_eq_self.mp sameText.symm) (Text.ofNat_ne_nil n)

end ScalarType

namespace DeclaredType

/-- The innermost element of an array, and any other type itself. -/
def stem : DeclaredType → DeclaredType
  | .array element _ => element.stem
  | .scalar type => .scalar type
  | .tuple components => .tuple components

/-- The number of arrays around the innermost element. -/
def depth : DeclaredType → Nat
  | .array element _ => element.depth + 1
  | _ => 0

/-- The array suffixes of a type. -/
def suffixes : DeclaredType → Text
  | .array element size => element.suffixes ++ suffix size
  | _ => []

/-- The innermost element of an array is a scalar or a tuple. -/
theorem stem_cases
    (type : DeclaredType) :
    (∃ scalar, type.stem = .scalar scalar) ∨
      (∃ components, type.stem = .tuple components) := by
  induction type using inductionOnComponents with
  | scalar type =>
      exact Or.inl ⟨type, rfl⟩
  | array element size inductionHypothesis =>
      exact inductionHypothesis
  | tuple components =>
      exact Or.inr ⟨components, rfl⟩

/-- A description writes the innermost element and the suffixes. -/
theorem text_eq
    (type : DeclaredType) :
    type.text = type.stem.text ++ type.suffixes := by
  induction type using inductionOnComponents with
  | array element size inductionHypothesis =>
      rw [text, inductionHypothesis, suffixes, stem, List.append_assoc]
  | _ =>
      simp [stem, suffixes]

/-- A signature writes the innermost element and the suffixes. -/
theorem signature_eq
    (type : DeclaredType) :
    type.signature = type.stem.signature ++ type.suffixes := by
  induction type using inductionOnComponents with
  | array element size inductionHypothesis =>
      rw [signature, inductionHypothesis, suffixes, stem, List.append_assoc]
  | _ =>
      simp [stem, suffixes]

/-- Layouts of arrays are lists around the layout of the innermost element. -/
theorem layout_eq
    (type : DeclaredType) :
    type.layout = Layout.listed type.stem.layout type.depth := by
  induction type using inductionOnComponents with
  | array element size inductionHypothesis =>
      rw [layout, inductionHypothesis, depth, Layout.listed, stem]
  | _ =>
      rfl

/-- Components fit an array if they fit its innermost element. -/
theorem fits_stem
    (type : DeclaredType)
    (components : Components) :
    type.stem.Fits components ↔ type.Fits components := by
  induction type using inductionOnComponents with
  | array element size inductionHypothesis =>
      exact inductionHypothesis
  | _ =>
      exact Iff.rfl

/-- What holds of the signature of each declaration holds of all signatures. -/
theorem forall_mem_signatures
    {motive : Text → Prop}
    {declarations : Declarations}
    (each : ∀ declaration ∈ declarations, motive declaration.2.signature) :
    ∀ written ∈ signatures declarations, motive written := by
  induction declarations with
  | nil =>
      rintro written ⟨⟩
  | cons declaration rest inductionHypothesis =>
      rw [signatures, List.forall_mem_cons]
      exact ⟨each declaration (by simp),
        inductionHypothesis fun other member => each other (List.mem_cons_of_mem _ member)⟩

theorem isScalar_signature
    (type : DeclaredType) :
    Text.isScalar type.signature = true := by
  have ofDigits :
      ∀ size : Option Nat, Text.isScalar (ScalarType.digits size) = true := by
    intro size
    rw [Text.isScalar, List.all_eq_true]
    intro c member
    exact ScalarType.isScalar_of_isAsciiWord (ScalarType.isAsciiWord_of_mem_digits size member)
  induction type using inductionOnComponents with
  | scalar type =>
      rw [signature, Text.isScalar, List.all_eq_true]
      intro c member
      exact ScalarType.isScalar_of_isAsciiWord (ScalarType.isAsciiWord_of_mem_text member)
  | array element size inductionHypothesis =>
      rw [signature, suffix]
      simp only [Text.isScalar, List.all_append, Bool.and_eq_true] at inductionHypothesis ofDigits ⊢
      exact ⟨inductionHypothesis, ⟨by decide, ofDigits size⟩, by decide⟩
  | tuple components inductionHypothesis =>
      have members := Text.isScalar_join (by decide : Text.isScalar "," = true)
        (forall_mem_signatures inductionHypothesis)
      rw [signature]
      simp only [Text.isScalar, List.all_append, Bool.and_eq_true] at members ⊢
      exact ⟨⟨by decide, members⟩, by decide⟩

/-- No description of a type has a line break. -/
theorem ne_lineBreak_of_mem_text
    (type : DeclaredType) :
    ∀ c ∈ type.text, c ≠ '\n' := by
  have ofWord :
      ∀ word : Text, word.all (· ≠ CodePoint.ofChar '\n') = true →
        ∀ c ∈ word, c ≠ '\n' :=
    fun word allOther c inWord => by simpa using List.all_eq_true.mp allOther c inWord
  induction type using inductionOnComponents with
  | scalar type =>
      exact fun c member =>
        (ScalarType.ne_of_isAsciiWord (ScalarType.isAsciiWord_of_mem_text member)).2
  | array element size inductionHypothesis =>
      intro c member
      simp only [text, suffix, List.mem_append] at member
      rcases member with inElement | (inBracket | inDigits) | inBracket
      · exact inductionHypothesis c inElement
      · exact ofWord _ (by decide) c inBracket
      · cases size with
        | none =>
            cases inDigits
        | some n =>
            rintro rfl
            have isDigit := (Text.isDigit_of_mem_ofNat inDigits).1
            revert isDigit
            decide
      · exact ofWord _ (by decide) c inBracket
  | tuple components =>
      exact ofWord "tuple" (by decide)

/-- The suffixes of an array are counted, and its innermost element is left. -/
theorem dropArraySuffixes_text
    (type : DeclaredType)
    {fuel : Nat}
    (enough : type.depth ≤ fuel) :
    Text.dropArraySuffixes fuel type.text = (type.stem.text, type.depth) := by
  have stops :
      ∀ (t : Text) (fuel : Nat), Text.dropArraySuffix? t = none →
        Text.dropArraySuffixes fuel t = (t, 0) := by
    intro t fuel noSuffix
    cases fuel with
    | zero =>
        rfl
    | succ fuel =>
        rw [Text.dropArraySuffixes, noSuffix]
  induction type using inductionOnComponents generalizing fuel with
  | scalar type =>
      exact stops type.text fuel (ScalarType.dropArraySuffix?_text type)
  | array element size inductionHypothesis =>
      rw [depth] at enough
      obtain ⟨fuel, rfl⟩ : ∃ less, fuel = less + 1 := ⟨fuel - 1, by omega⟩
      have digits : ∀ c ∈ ScalarType.digits size, c.isDecimalDigit = true := by
        intro c member
        cases size with
        | none =>
            cases member
        | some n =>
            exact (Text.isDigit_of_mem_ofNat member).2
      rw [text, suffix, Text.dropArraySuffixes,
        Text.dropArraySuffix?_append element.ne_lineBreak_of_mem_text digits]
      simp only [inductionHypothesis (Nat.le_of_succ_le_succ enough), stem, depth]
  | tuple components =>
      exact stops "tuple" fuel (by rfl)

/-- A description of a type has at least one code point for each array. -/
theorem depth_le_length_text
    (type : DeclaredType) :
    type.depth ≤ type.text.length := by
  induction type using inductionOnComponents with
  | array element size inductionHypothesis =>
      have bracket : 0 < (suffix size).length :=
        Nat.succ_pos _
      rw [depth, text, List.length_append]
      omega
  | _ =>
      exact Nat.zero_le _

/-- The base of a described type is its innermost element. -/
theorem arrayBase_text
    (type : DeclaredType) :
    Text.arrayBase type.text = (type.stem.text, type.depth) :=
  type.dropArraySuffixes_text type.depth_le_length_text

theorem describe_cons
    {name : Text}
    {type : DeclaredType}
    {rest : Declarations}
    {descriptions : List Description}
    (described : Describe ((name, type) :: rest) descriptions) :
    ∃ entries components others,
      descriptions = .mapping entries components :: others ∧
        Entries.get? entries (.text "name") = some (.text name) ∧
          Entries.get? entries (.text "type") = some (.text type.text) ∧
            type.Fits components ∧ Describe rest others := by
  cases descriptions with
  | nil =>
      cases described
  | cons description others =>
      cases description with
      | mapping entries components =>
          exact ⟨entries, components, others, rfl, described⟩
      | bare type =>
          cases described
      | malformed =>
          cases described

/-- Only components in a list fit a tuple. -/
theorem fits_tuple
    {declarations : Declarations}
    {components : Components}
    (fits : (DeclaredType.tuple declarations).Fits components) :
    ∃ members, components = .listed members ∧ Describe declarations members := by
  cases components with
  | listed members =>
      exact ⟨members, rfl, fits⟩
  | absent =>
      cases fits
  | malformed =>
      cases fits

theorem length_of_describe
    {declarations : Declarations}
    {descriptions : List Description}
    (described : Describe declarations descriptions) :
    descriptions.length = declarations.length := by
  induction declarations generalizing descriptions with
  | nil =>
      cases descriptions with
      | nil =>
          rfl
      | cons description others =>
          cases described
  | cons declaration rest inductionHypothesis =>
      obtain ⟨entries, components, others, rfl, -, -, -, restDescribed⟩ :=
        describe_cons described
      simp [inductionHypothesis restDescribed]

end DeclaredType

namespace Parameter

/-- Names can be filled in before or after they become values. -/
theorem fillNames_map
    (f : α → β)
    (make : Nat → α)
    (isNamed : β → Bool)
    (next : Nat)
    (names : List α) :
    fillNames (fun n => f (make n)) isNamed next (names.map f) =
      (fillNames make (fun name => isNamed (f name)) next names).map f := by
  induction names generalizing next with
  | nil =>
      rfl
  | cons name names inductionHypothesis =>
      rw [List.map_cons, fillNames, fillNames, inductionHypothesis, inductionHypothesis]
      split <;> rfl

end Parameter

namespace Description

/-- Values are stored under the names of descriptions, and under stand-ins where there is
none. -/
theorem keys_of_names
    {descriptions : List Description}
    {names : List Text}
    (named : descriptions.mapM name = .ok (names.map .text)) :
    keys descriptions =
      .ok ((Parameter.fillNames Parameter.standIn (! ·.isEmpty) 1 names).map .text) := by
  rw [keys, named]
  exact congrArg Except.ok
    (Parameter.fillNames_map Value.text Parameter.standIn Value.isTrue 1 names)

end Description

namespace DeclaredType

theorem mapM_name_of_describe
    {declarations : Declarations}
    {descriptions : List Description}
    (described : Describe declarations descriptions) :
    descriptions.mapM Description.name =
      .ok (declarations.map fun declaration => Value.text declaration.1) := by
  induction declarations generalizing descriptions with
  | nil =>
      cases descriptions with
      | nil =>
          rfl
      | cons description others =>
          cases described
  | cons declaration rest inductionHypothesis =>
      obtain ⟨entries, components, others, rfl, hasName, -, -, restDescribed⟩ :=
        describe_cons described
      rw [List.mapM_cons, Description.name, Description.required, hasName,
        inductionHypothesis restDescribed]
      rfl

/-- The keys of described values are those of the declarations. -/
theorem keys_of_describe
    {declarations : Declarations}
    {descriptions : List Description}
    (described : Describe declarations descriptions) :
    Description.keys descriptions = .ok ((keys declarations).map .text) := by
  refine Description.keys_of_names ?_
  rw [List.map_map]
  exact mapM_name_of_describe described

/-- The layout that is read off the base of a type and the components. -/
def ReadsLayout (type : DeclaredType) : Prop :=
  ∀ components, type.Fits components →
    (if type.stem.text = "tuple" then Layout.ofComponents components
      else if type.stem.text = "address" then .address else .plain) = type.stem.layout

/-- A description of a type has the layout of the type. -/
theorem ReadsLayout.ofDescription_eq
    {type : DeclaredType}
    (reads : ReadsLayout type)
    {entries : Entries}
    {components : Components}
    (hasType : Entries.get? entries (.text "type") = some (.text type.text))
    (fits : type.Fits components) :
    Layout.ofDescription (.mapping entries components) = type.layout := by
  rw [Layout.ofDescription, hasType]
  simp only [arrayBase_text, reads components fits, layout_eq type]

/-- Descriptions have the layouts of their declarations, if each of these has. -/
theorem ofDescriptions_of_readsLayout
    {declarations : Declarations}
    (reads : ∀ declaration ∈ declarations, ReadsLayout declaration.2)
    {descriptions : List Description}
    (described : Describe declarations descriptions) :
    Layout.ofDescriptions descriptions = layouts declarations := by
  induction declarations generalizing descriptions with
  | nil =>
      cases descriptions with
      | nil =>
          rfl
      | cons description others =>
          cases described
  | cons declaration rest inductionHypothesis =>
      obtain ⟨entries, components, others, rfl, -, hasType, fits, restDescribed⟩ :=
        describe_cons described
      rw [Layout.ofDescriptions, layouts,
        (reads declaration (by simp)).ofDescription_eq hasType fits,
        inductionHypothesis
          (fun other member => reads other (List.mem_cons_of_mem _ member))
          restDescribed]

/-- The layout of every type is read. -/
theorem readsLayout
    (type : DeclaredType) :
    ReadsLayout type := by
  induction type using inductionOnComponents with
  | scalar scalar =>
      intro components _
      have isAddress : scalar.text = "address" ↔ scalar = .address :=
        ⟨fun same => ScalarType.text_injective (b := .address) same, fun same => same ▸ rfl⟩
      have notTuple : scalar.text ≠ "tuple" := by
        intro same
        have noTuple := ScalarType.dropStart?_tuple scalar []
        rw [List.append_nil, same] at noTuple
        revert noTuple
        decide
      simp only [stem, text, notTuple, ↓reduceIte, isAddress, layout]
  | array element size inductionHypothesis =>
      -- An array has the innermost element of its elements.
      exact inductionHypothesis
  | tuple declarations inductionHypothesis =>
      intro components fits
      obtain ⟨members, rfl, described⟩ := fits_tuple fits
      simp only [stem, text, ↓reduceIte]
      rw [Layout.ofComponents, keys_of_describe described,
        ofDescriptions_of_readsLayout inductionHypothesis described, layout]

theorem ofDescriptions_of_describe
    {declarations : Declarations}
    {descriptions : List Description}
    (described : Describe declarations descriptions) :
    Layout.ofDescriptions descriptions = layouts declarations :=
  ofDescriptions_of_readsLayout (fun _ _ => readsLayout _) described

/-- The components of the innermost element are written as in signatures. -/
def ReadsComponents (type : DeclaredType) : Prop :=
  ∀ declarations members, type.stem = .tuple declarations →
    Describe declarations members →
      Description.encodedTypes members = .ok (signatures declarations)

/-- A description of a type is encoded under the type that stands in signatures. -/
theorem ReadsComponents.encodedType_eq
    {type : DeclaredType}
    (reads : ReadsComponents type)
    {entries : Entries}
    {components : Components}
    (hasType : Entries.get? entries (.text "type") = some (.text type.text))
    (fits : type.Fits components) :
    Description.encodedType (.mapping entries components) = .ok type.signature := by
  rw [Description.encodedType, hasType]
  rcases type.stem_cases with ⟨scalar, isScalar⟩ | ⟨declarations, isTuple⟩
  · have noTuple : Text.dropStart? type.text "tuple" = none := by
      rw [text_eq, isScalar]
      exact ScalarType.dropStart?_tuple scalar type.suffixes
    simp only [noTuple]
    rw [text_eq, signature_eq, isScalar, text, signature]
  · have tupleFits := (fits_stem type components).mpr fits
    rw [isTuple] at tupleFits
    obtain ⟨members, rfl, described⟩ := fits_tuple tupleFits
    have isTupleText : Text.dropStart? type.text "tuple" = some type.suffixes := by
      rw [text_eq, isTuple]
      exact Text.dropStart?_append "tuple" type.suffixes
    simp only [isTupleText, Description.componentTypes,
      reads declarations members isTuple described]
    rw [signature_eq, isTuple, signature]
    rfl

/-- The types of components are those that stand in signatures, if each of them is. -/
theorem encodedTypes_of_readsComponents
    {declarations : Declarations}
    (reads : ∀ declaration ∈ declarations, ReadsComponents declaration.2)
    {descriptions : List Description}
    (described : Describe declarations descriptions) :
    Description.encodedTypes descriptions = .ok (signatures declarations) := by
  induction declarations generalizing descriptions with
  | nil =>
      cases descriptions with
      | nil =>
          rfl
      | cons description others =>
          cases described
  | cons declaration rest inductionHypothesis =>
      obtain ⟨entries, components, others, rfl, -, hasType, fits, restDescribed⟩ :=
        describe_cons described
      rw [Description.encodedTypes,
        (reads declaration (by simp)).encodedType_eq hasType fits,
        inductionHypothesis
          (fun other member => reads other (List.mem_cons_of_mem _ member))
          restDescribed]
      rfl

/-- The components of every type are read. -/
theorem readsComponents
    (type : DeclaredType) :
    ReadsComponents type := by
  induction type using inductionOnComponents with
  | scalar scalar =>
      intro declarations members isTuple
      cases isTuple
  | array element size inductionHypothesis =>
      exact inductionHypothesis
  | tuple declarations inductionHypothesis =>
      rintro _ members ⟨⟩ described
      exact encodedTypes_of_readsComponents inductionHypothesis described

/-- Every described parameter is encoded under the type that stands in signatures. -/
theorem mapM_ownType_of_describe
    {declarations : Declarations}
    {descriptions : List Description}
    (described : Describe declarations descriptions) :
    descriptions.mapM Description.ownType = .ok (signatures declarations) := by
  induction declarations generalizing descriptions with
  | nil =>
      cases descriptions with
      | nil =>
          rfl
      | cons description others =>
          cases described
  | cons declaration rest inductionHypothesis =>
      obtain ⟨entries, components, others, rfl, -, hasType, fits, restDescribed⟩ :=
        describe_cons described
      rw [List.mapM_cons, Description.ownType,
        (readsComponents declaration.2).encodedType_eq hasType fits,
        inductionHypothesis restDescribed]
      rfl

end DeclaredType

end ContractBindings
