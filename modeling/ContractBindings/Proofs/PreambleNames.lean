import Mathlib.Data.List.Nodup
import Mathlib.Data.List.Perm.Subperm
import ContractBindings.Source.Readable
import ContractBindings.Proofs.Texts

namespace ContractBindings

/-!
# The names that the preamble binds

A statement binds at most one name: the word behind `class`, or its first word.  A name
that is an identifier is found again in the statement that defines it.  Main statement:
the preamble binds no name twice and only names that are reserved.
-/

namespace CodePoint

theorem continuesIdentifier_of_begins
    {c : CodePoint}
    (begins : c.beginsIdentifier = true) :
    c.continuesIdentifier = true := by
  rw [beginsIdentifier] at begins
  rw [continuesIdentifier]
  split at begins
  case isTrue isAscii =>
    rw [if_pos isAscii, isAsciiWord]
    rcases Bool.or_eq_true_iff.mp begins with isLetter | isUnderscore
    · rw [isLetter, Bool.true_or, Bool.true_or]
    · rw [isUnderscore, Bool.or_true]
  case isFalse notAscii =>
    rw [if_neg notAscii, begins, Bool.true_or]

/-- A small hexadecimal digit stands in names, and in ASCII. -/
theorem continuesIdentifier_of_isSmallHexDigit
    {c : CodePoint}
    (isDigit : Names.isSmallHexDigit c = true) :
    c.val < 0x80 ∧ c.continuesIdentifier = true := by
  simp only [Names.isSmallHexDigit, isAsciiDigit, Bool.or_eq_true, Bool.and_eq_true,
    decide_eq_true_eq] at isDigit
  have isAscii : c.val < 0x80 := by
    omega
  refine ⟨isAscii, ?_⟩
  rw [continuesIdentifier, if_pos isAscii]
  simp only [isAsciiWord, isAsciiLetter, isAsciiDigit, Bool.or_eq_true, Bool.and_eq_true,
    decide_eq_true_eq]
  omega

end CodePoint

namespace Text

/-- An identifier has a first code point, which begins identifiers, and all continue them. -/
theorem isIdentifier_iff
    {name : Text} :
    isIdentifier name = true ↔
      ∃ first rest, name = first :: rest ∧ first.beginsIdentifier = true ∧
        ∀ c ∈ name, c.continuesIdentifier = true := by
  cases name with
  | nil =>
      simp [isIdentifier]
  | cons first rest =>
      simp only [isIdentifier, Bool.and_eq_true, List.all_eq_true, List.cons.injEq,
        List.forall_mem_cons]
      constructor
      · rintro ⟨begins, continue_⟩
        exact ⟨first, rest, ⟨rfl, rfl⟩, begins,
          CodePoint.continuesIdentifier_of_begins begins, continue_⟩
      · rintro ⟨_, _, ⟨rfl, rfl⟩, begins, -, continue_⟩
        exact ⟨begins, continue_⟩

theorem isIdentifier_append
    {name more : Text}
    (isName : isIdentifier name = true)
    (continue_ : ∀ c ∈ more, c.continuesIdentifier = true) :
    isIdentifier (name ++ more) = true := by
  obtain ⟨first, rest, rfl, begins, ofName⟩ := isIdentifier_iff.mp isName
  exact isIdentifier_iff.mpr ⟨first, rest ++ more, rfl, begins, fun c member =>
    (List.mem_append.mp member).elim (ofName c) (continue_ c)⟩

/-- Whether all code points of a text are in ASCII. -/
def isAscii (t : Text) : Bool :=
  t.all (·.val < 0x80)

end Text

namespace Source

/-!
## Statements and what they bind
-/

/-- A name that a statement binds, to a class or to something else. -/
structure Head where
  isClass : Bool
  name : Text
  deriving DecidableEq

/-- What a statement binds, line breaks before it skipped: the word behind `class`, or its
first word. -/
def head? (statement : Text) : Option Head :=
  let text : Text := statement.dropWhile fun c : CodePoint => c = '\n'
  let (isClass, rest) := match Text.dropStart? text "class " with
    | some rest => (true, rest.dropWhile isLineBlank)
    | none => (false, text)
  match rest.takeWhile CodePoint.continuesIdentifier with
  | [] => none
  | name => some ⟨isClass, name⟩

/-- What a line of the imports binds: the words behind `import`, and the one on an
indented line. -/
def importHeads (text : Text) : List Head :=
  let words := Text.split text ' '
  match words.dropWhile fun word : Text => word ≠ "import" with
  | _ :: names => names.filterMap head?
  | [] => if Text.startsWith text "    " then words.filterMap head? else []

/-- The statements that define the types for native values. -/
def primitiveStatements : List Text :=
  [line 0 "TLargeInteger = TypeVar(\"TLargeInteger\")" 2] ++
    Names.integerWidths.map (integerType "Int") ++ [line 0 [] 1] ++
    Names.integerWidths.map (integerType "UInt") ++ [line 0 [] 1] ++
    Names.byteSizes.map (fun size => byteClass ("Bytes" ++ Text.ofNat size) (Text.ofNat size)) ++
    [byteClass "Bytes" "None", byteClass "Address" "20", byteClass "SignatureHash" "4",
      line 0 [] 1, line 0 "NumberLike = Union[int, TLargeInteger]" 1,
      line 0 "BytesLike = Union[bytes, ByteArray, str]" 1]

/-- What the preamble binds. -/
def preambleHeads : List Head :=
  imports.flatMap importHeads ++ primitiveStatements.filterMap head?

theorem isLineBlank_of_continues
    {c : CodePoint}
    (continue_ : c.continuesIdentifier = true) :
    isLineBlank c = false := by
  cases isBlank : isLineBlank c with
  | false =>
      rfl
  | true =>
      simp only [isLineBlank, Bool.or_eq_true, decide_eq_true_eq] at isBlank
      rcases isBlank with (rfl | rfl) | isFormFeed
      · exact absurd continue_ (by decide)
      · exact absurd continue_ (by decide)
      · obtain rfl : c = 0x0C := Fin.ext isFormFeed
        exact absurd continue_ (by decide)

/-- Line breaks behind a line. -/
def lineBreaks (breaks : Nat) : Text :=
  List.replicate breaks ('\n' : CodePoint)

theorem line_zero
    (text : Text)
    (breaks : Nat) :
    line 0 text breaks = text ++ lineBreaks breaks :=
  rfl

/-- What follows a name and is no part of it. -/
def EndsName (rest : Text) : Prop :=
  ∃ next more, rest = next :: more ∧ next.continuesIdentifier = false

/-- An identifier is the longest run of the code points of identifiers. -/
theorem takeWhile_continuesIdentifier
    {name rest : Text}
    (isName : Text.isIdentifier name = true)
    (ends : EndsName rest) :
    (name ++ rest).takeWhile CodePoint.continuesIdentifier = name := by
  obtain ⟨next, more, rfl, stops⟩ := ends
  obtain ⟨_, _, -, -, continue_⟩ := Text.isIdentifier_iff.mp isName
  rw [List.takeWhile_append_of_pos continue_, List.takeWhile_cons_of_neg (by simp [stops]),
    List.append_nil]

/-- A definition binds the identifier that it begins with. -/
theorem head?_definition
    {name rest : Text}
    (isName : Text.isIdentifier name = true)
    (noClass : name.head? ≠ some ('c' : CodePoint))
    (ends : EndsName rest) :
    head? (name ++ rest) = some ⟨false, name⟩ := by
  obtain ⟨first, others, rfl, begins, -⟩ := Text.isIdentifier_iff.mp isName
  have noBreak : first ≠ '\n' := by
    rintro rfl
    exact absurd begins (by decide)
  have noBreaks :
      (first :: others ++ rest).dropWhile (fun c : CodePoint => c = '\n') =
        first :: others ++ rest :=
    List.dropWhile_cons_of_neg (by simpa using noBreak)
  have noSmallC : first ≠ 'c' := by
    simpa using noClass
  have noClassWord : Text.dropStart? (first :: others ++ rest) "class " = none :=
    Text.dropStart?_cons_ne noSmallC _ _
  simp only [head?, noBreaks, noClassWord, takeWhile_continuesIdentifier isName ends]

/-- A class statement binds the identifier behind `class`. -/
theorem head?_class
    {name rest : Text}
    (isName : Text.isIdentifier name = true)
    (ends : EndsName rest) :
    head? (lineBreaks 1 ++ ("class " ++ (name ++ rest))) = some ⟨true, name⟩ := by
  obtain ⟨first, others, rfl, begins, -⟩ := Text.isIdentifier_iff.mp isName
  have noBlank : isLineBlank first = false :=
    isLineBlank_of_continues (CodePoint.continuesIdentifier_of_begins begins)
  have noBlanks : (first :: others ++ rest).dropWhile isLineBlank = first :: others ++ rest :=
    List.dropWhile_cons_of_neg (by simp [noBlank])
  have dropsBreak :
      (lineBreaks 1 ++ ("class " ++ (first :: others ++ rest))).dropWhile
          (fun c : CodePoint => c = '\n') =
        "class " ++ (first :: others ++ rest) :=
    rfl
  simp only [head?, dropsBreak, Text.dropStart?_append, noBlanks,
    takeWhile_continuesIdentifier isName ends]

theorem filterMap_head?_map
    {statement : α → Text}
    {head : α → Head}
    {items : List α}
    (binds : ∀ item ∈ items, head? (statement item) = some (head item)) :
    (items.map statement).filterMap head? = items.map head := by
  rw [List.filterMap_map, ← List.filterMap_eq_map]
  exact List.filterMap_congr binds

theorem isIdentifier_append_ofNat
    {stem : Text}
    (isName : Text.isIdentifier stem = true)
    (number : Nat) :
    Text.isIdentifier (stem ++ Text.ofNat number) = true := by
  refine Text.isIdentifier_append isName fun c member => ?_
  refine (CodePoint.continuesIdentifier_of_isSmallHexDigit ?_).2
  rw [Names.isSmallHexDigit, (Text.isDigit_of_mem_ofNat member).1, Bool.true_or]

theorem head?_integerType
    {sign : Text}
    (isName : Text.isIdentifier sign = true)
    (noClass : sign.head? ≠ some ('c' : CodePoint))
    (width : Nat) :
    head? (integerType sign width) = some ⟨false, sign ++ Text.ofNat width⟩ := by
  have noClassWord : (sign ++ Text.ofNat width).head? ≠ some ('c' : CodePoint) := by
    obtain ⟨first, others, rfl, -⟩ := Text.isIdentifier_iff.mp isName
    exact noClass
  have ends : ∀ more : Text, EndsName (" = Annotated[" ++ more) :=
    fun more => ⟨' ', _, rfl, by decide⟩
  simp only [integerType, line_zero]
  simpa only [List.append_assoc] using
    head?_definition (isIdentifier_append_ofNat isName width) noClassWord (ends _)

theorem head?_byteClass
    {name : Text}
    (isName : Text.isIdentifier name = true)
    (length : Text) :
    head? (byteClass name length) = some ⟨true, name⟩ := by
  have ends : ∀ more : Text, EndsName ("(ByteArray):" ++ more) :=
    fun more => ⟨'(', _, rfl, by decide⟩
  simp only [byteClass, line_zero, List.append_assoc, List.nil_append]
  exact head?_class isName (ends _)

/-- The names that a module assigns besides its records. -/
def assignedNames : List Text :=
  ["event_descriptions", "Event", "event_types"]

/-- The names that the preamble imports. -/
def importedNames : List Text :=
  ["annotations", "Dict", "List", "Optional", "TypeVar", "Union", "Annotated", "Literal",
    "TypedDict", "Brand", "ByteArray", "Contract", "DecodedEvent", "Dependencies",
    "EventDescription", "ReturnShape"]

/-- The names of types without a number. -/
def typeNames : List Text :=
  ["TLargeInteger", "Bytes", "Address", "SignatureHash", "NumberLike", "BytesLike"]

/-- Names that end in numbers. -/
def numbered (stem : Text) (numbers : List Nat) : List Text :=
  numbers.map fun number => stem ++ Text.ofNat number

/-- The names of types with a number. -/
def numberedNames : List Text :=
  numbered "Int" Names.integerWidths ++ numbered "UInt" Names.integerWidths ++
    numbered "Bytes" Names.byteSizes

/-- The preamble binds the names that it imports and those of the types. -/
theorem names_preambleHeads :
    preambleHeads.map (·.name) =
      importedNames ++ typeNames.take 1 ++ numberedNames ++ typeNames.drop 1 := by
  have ofImports : (imports.flatMap importHeads).map (·.name) = importedNames := by
    decide +kernel
  have ofFirst :
      ([line 0 "TLargeInteger = TypeVar(\"TLargeInteger\")" 2].filterMap head?).map (·.name) =
        typeNames.take 1 := by
    decide +kernel
  have ofIntegers :
      ∀ sign : Text, Text.isIdentifier sign = true → sign.head? ≠ some ('c' : CodePoint) →
        ((Names.integerWidths.map (integerType sign)).filterMap head?).map (·.name) =
          numbered sign Names.integerWidths := by
    intro sign isName noClass
    rw [filterMap_head?_map fun width _ => head?_integerType isName noClass width, List.map_map]
    rfl
  have ofBytes :
      ((Names.byteSizes.map fun size =>
          byteClass ("Bytes" ++ Text.ofNat size) (Text.ofNat size)).filterMap head?).map (·.name) =
        numbered "Bytes" Names.byteSizes := by
    rw [filterMap_head?_map fun size _ =>
      head?_byteClass (isIdentifier_append_ofNat (by decide) size) _, List.map_map]
    rfl
  have ofLast :
      ([byteClass "Bytes" "None", byteClass "Address" "20", byteClass "SignatureHash" "4",
          line 0 [] 1, line 0 "NumberLike = Union[int, TLargeInteger]" 1,
          line 0 "BytesLike = Union[bytes, ByteArray, str]" 1].filterMap head?).map (·.name) =
        typeNames.drop 1 := by
    decide +kernel
  have ofBlank : ([line 0 [] 1].filterMap head?).map (·.name) = [] :=
    rfl
  simp only [preambleHeads, primitiveStatements, List.filterMap_append, List.map_append, ofImports,
    ofFirst, ofIntegers "Int" (by decide) (by decide), ofIntegers "UInt" (by decide) (by decide),
    ofBytes, ofLast, ofBlank, List.nil_append, numberedNames, List.append_assoc]

/-- Names with different first letters and numbers behind them differ. -/
theorem disjoint_numbered
    {stem other : Text}
    (differ : stem.head? ≠ other.head?)
    (notNil : stem ≠ [])
    (otherNotNil : other ≠ [])
    (numbers others : List Nat) :
    (numbered stem numbers).Disjoint (numbered other others) := by
  intro name inFirst inSecond
  obtain ⟨number, -, rfl⟩ := List.mem_map.mp inFirst
  obtain ⟨otherNumber, -, same⟩ := List.mem_map.mp inSecond
  apply differ
  have sameHead := congrArg List.head? same
  rwa [List.head?_append_of_ne_nil _ otherNotNil, List.head?_append_of_ne_nil _ notNil,
    eq_comm] at sameHead

theorem nodup_numbered
    (stem : Text)
    {numbers : List Nat}
    (noDuplicates : numbers.Nodup) :
    (numbered stem numbers).Nodup :=
  noDuplicates.map fun _ _ same => Text.ofNat_injective (List.append_cancel_left same)

theorem nodup_numberedNames :
    numberedNames.Nodup := by
  have widths : Names.integerWidths.Nodup := by
    decide
  have sizes : Names.byteSizes.Nodup := by
    decide
  refine List.nodup_append'.mpr ⟨List.nodup_append'.mpr
    ⟨nodup_numbered "Int" widths, nodup_numbered "UInt" widths, ?_⟩,
      nodup_numbered "Bytes" sizes, List.disjoint_append_left.mpr ⟨?_, ?_⟩⟩
  all_goals exact disjoint_numbered (by decide) (by decide) (by decide) _ _

/-- A name with a number behind it has a digit in it. -/
theorem exists_digit_of_mem_numberedNames
    {name : Text}
    (member : name ∈ numberedNames) :
    ∃ c ∈ name, c.isAsciiDigit = true := by
  obtain ⟨stem, number, rfl⟩ : ∃ stem number, name = stem ++ Text.ofNat number := by
    simp only [numberedNames, numbered, List.mem_append, List.mem_map] at member
    rcases member with (⟨number, -, rfl⟩ | ⟨number, -, rfl⟩) | ⟨number, -, rfl⟩ <;>
      exact ⟨_, _, rfl⟩
  obtain ⟨digit, digits, written, -⟩ := Text.ofNat_eq_cons number
  have isDigit : digit ∈ Text.ofNat number := by
    rw [written]
    exact List.mem_cons_self
  exact ⟨digit, List.mem_append_right stem isDigit, (Text.isDigit_of_mem_ofNat isDigit).1⟩

/-- The names of a module without a number. -/
def plainNames : List Text :=
  importedNames ++ typeNames ++ assignedNames

/-- The preamble binds, and a module assigns, the names without a number and those with one. -/
theorem preambleNames_perm :
    (preambleHeads.map (·.name) ++ assignedNames).Perm (plainNames ++ numberedNames) := by
  refine List.perm_iff_count.mpr fun name => ?_
  have ofTypes := congrArg (List.count name) (List.take_append_drop 1 typeNames)
  rw [List.count_append] at ofTypes
  simp only [names_preambleHeads, plainNames, List.count_append]
  omega

/-- The names of the preamble and those assigned behind it are pairwise distinct. -/
theorem nodup_preambleNames :
    (preambleHeads.map (·.name) ++ assignedNames).Nodup := by
  -- Names without digits are compared one by one, those with digits by stem and number.
  have plainNodup : plainNames.Nodup := by
    decide +kernel
  have noDigits : plainNames.all (·.all (! ·.isAsciiDigit)) = true := by
    decide +kernel
  refine preambleNames_perm.nodup_iff.mpr
    (List.nodup_append'.mpr ⟨plainNodup, nodup_numberedNames, fun name isPlain isNumbered => ?_⟩)
  obtain ⟨c, member, isDigit⟩ := exists_digit_of_mem_numberedNames isNumbered
  have noDigit := List.all_eq_true.mp (List.all_eq_true.mp noDigits name isPlain) c member
  rw [isDigit] at noDigit
  cases noDigit

/-- The names of the preamble and those assigned behind it are reserved. -/
theorem mem_moduleNames_of_preambleNames
    {name : Text}
    (member : name ∈ preambleHeads.map (·.name) ++ assignedNames) :
    name ∈ Names.moduleNames := by
  have plain : ∀ name ∈ plainNames, name ∈ Names.moduleNames := by
    decide +kernel
  rcases List.mem_append.mp (preambleNames_perm.mem_iff.mp member) with isPlain | isNumbered
  · exact plain name isPlain
  · simp only [numberedNames, numbered, List.mem_append] at isNumbered
    simp only [Names.moduleNames, List.mem_append]
    tauto

/-- The reserved names are in ASCII, and none has the form of the name of a record. -/
theorem isAscii_of_mem_moduleNames :
    ∀ name ∈ Names.moduleNames, Text.isAscii name = true ∧ Names.isRecordName name = false := by
  decide +kernel

end Source

end ContractBindings
