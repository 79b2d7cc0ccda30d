import ContractBindings.Proofs.ClassReading
import ContractBindings.Proofs.ModuleLiterals

namespace ContractBindings

/-!
# What the lines of a module bind

The names that a module binds are read from the lines of its text: those of the imports first,
and then those with which the lines at the margin begin.  Main statement: these are the names
that its statements bind, one each, if every text that begins on a line of the module also ends
there.
-/

namespace Text

/-- A beginning without a code point is none that goes on behind it. -/
theorem dropStart?_append_cons
    {start : Text}
    {c : CodePoint}
    (absent : c ∉ start)
    (t rest : Text) :
    dropStart? (t ++ c :: rest) start = (dropStart? t start).map (· ++ c :: rest) := by
  induction start generalizing t with
  | nil =>
      cases t <;> rfl
  | cons s start inductionHypothesis =>
      rw [List.mem_cons, not_or] at absent
      cases t with
      | nil =>
          exact dropStart?_cons_ne absent.1 rest start
      | cons d t =>
          rw [List.cons_append, dropStart?, dropStart?]
          split
          case isTrue =>
            exact inductionHypothesis absent.2 t
          case isFalse =>
            rfl

end Text

namespace Source

/-- What a line of code binds.  An indented line belongs to the statement above it. -/
def lineHead? : Text → Option Head
  | [] => none
  | c :: t => if c = ' ' then none else head? (c :: t)

/-- What lines of code bind behind the imports. -/
def lineHeads (t : Text) : List Head :=
  (codeLines t).filterMap lineHead?

/-- The line with which the imports end. -/
def importsEnd : Text := ")"

/-- What a module binds, line by line: its imports first, and then what follows them. -/
def readHeads (t : Text) : List Head :=
  ((codeLines t).takeWhile (· ≠ importsEnd)).flatMap importHeads ++
    ((codeLines t).dropWhile (· ≠ importsEnd)).filterMap lineHead?

/-!
## Line breaks
-/

/-- What stands behind a line break says nothing of the name in front of it. -/
theorem head?_append_break
    {t : Text}
    (hasCode : ∃ c ∈ t, c ≠ '\n')
    (rest : Text) :
    head? (t ++ CodePoint.ofChar '\n' :: rest) = head? t := by
  have behindWord :
      ∀ t : Text,
        (t ++ CodePoint.ofChar '\n' :: rest).takeWhile CodePoint.continuesIdentifier =
          t.takeWhile CodePoint.continuesIdentifier := by
    intro t
    rw [List.takeWhile_append]
    split
    case isTrue isWord =>
      rw [(List.takeWhile_prefix _).eq_of_length isWord]
      exact List.append_nil t
    case isFalse =>
      rfl
  have behindBlanks :
      ∀ t : Text,
        ((t ++ CodePoint.ofChar '\n' :: rest).dropWhile isLineBlank).takeWhile
            CodePoint.continuesIdentifier =
          (t.dropWhile isLineBlank).takeWhile CodePoint.continuesIdentifier := by
    intro t
    rw [List.dropWhile_append]
    split
    case isTrue isBlank =>
      rw [List.isEmpty_iff.mp isBlank]
      rfl
    case isFalse =>
      exact behindWord _
  have notBlank : (t.dropWhile fun c : CodePoint => c = '\n') ≠ [] := by
    obtain ⟨c, member, noBreak⟩ := hasCode
    rw [ne_eq, List.dropWhile_eq_nil_iff]
    exact fun areBreaks => noBreak (by simpa using areBreaks c member)
  rw [head?, head?, List.dropWhile_append, if_neg (by simpa using notBlank)]
  dsimp only
  rw [Text.dropStart?_append_cons (by decide)]
  cases Text.dropStart? (t.dropWhile fun c : CodePoint => c = '\n') "class " with
  | none =>
      simp only [Option.map_none, behindWord]
  | some behind =>
      simp only [Option.map_some, behindBlanks]

theorem head?_of_breaks
    {t : Text}
    (areBreaks : ∀ c ∈ t, c = CodePoint.ofChar '\n') :
    head? t = none := by
  have noCode : (t.dropWhile fun c : CodePoint => c = '\n') = [] := by
    rw [List.dropWhile_eq_nil_iff]
    exact fun c member => decide_eq_true (areBreaks c member)
  rw [head?, noCode]
  rfl

/-- A line break at its end is nothing to what a line binds. -/
theorem lineHead?_append_break
    (t : Text) :
    lineHead? (t ++ "\n") = lineHead? t := by
  cases t with
  | nil =>
      rfl
  | cons first others =>
      have sameHead : head? (first :: (others ++ "\n")) = head? (first :: others) := by
        by_cases hasCode : ∃ c ∈ first :: others, c ≠ '\n'
        · exact head?_append_break hasCode []
        · have areBreaks : ∀ c ∈ first :: others, c = CodePoint.ofChar '\n' := by
            simpa using hasCode
          have areAll : ∀ c ∈ first :: others ++ ("\n" : Text), c = CodePoint.ofChar '\n' :=
            List.forall_mem_append.mpr ⟨areBreaks, List.forall_mem_singleton.mpr rfl⟩
          rw [head?_of_breaks areBreaks]
          exact head?_of_breaks areAll
      rw [List.cons_append, lineHead?, lineHead?, sameHead]

theorem outerLines_ne_nil
    (spot : Spot)
    (t : Text) :
    outerLines spot t ≠ [] := by
  cases t with
  | nil =>
      exact List.cons_ne_nil _ _
  | cons c t =>
      rw [outerLines]
      split
      · exact List.cons_ne_nil _ _
      · split <;> exact List.cons_ne_nil _ _

/-- A line break at the end of a text ends a line of code or goes on with the last one. -/
theorem outerLines_append_break
    (spot : Spot)
    (t : Text) :
    outerLines spot (t ++ "\n") = outerLines spot t ++ [[]] ∨
      ∃ others last, outerLines spot t = others ++ [last] ∧
        outerLines spot (t ++ "\n") = others ++ [last ++ Text.ofString "\n"] := by
  induction t generalizing spot with
  | nil =>
      rw [List.nil_append]
      cases ends : spot.endsLine with
      | true =>
          exact Or.inl (if_pos ⟨rfl, ends⟩)
      | false =>
          exact Or.inr ⟨[], [], rfl, if_neg fun isBreak => by simp [ends] at isBreak⟩
  | cons c t inductionHypothesis =>
      rw [List.cons_append, outerLines, outerLines]
      split
      case isTrue =>
        rcases inductionHypothesis .code with ofRest | ⟨others, last, isLast, ofRest⟩
        · exact Or.inl (congrArg ([] :: ·) ofRest)
        · rw [isLast, ofRest]
          exact Or.inr ⟨[] :: others, last, rfl, rfl⟩
      case isFalse =>
        rcases inductionHypothesis (spot.step c) with ofRest | ⟨others, last, isLast, ofRest⟩
        · rw [ofRest]
          obtain ⟨first, others, areLines⟩ :=
            List.exists_cons_of_ne_nil (outerLines_ne_nil (spot.step c) t)
          rw [areLines]
          exact Or.inl rfl
        · rw [isLast, ofRest]
          cases others with
          | nil => exact Or.inr ⟨[], c :: last, rfl, rfl⟩
          | cons first others => exact Or.inr ⟨(c :: first) :: others, last, rfl, rfl⟩

/-- Empty lines bind nothing. -/
theorem lineHeads_eq
    (t : Text) :
    lineHeads t = (outerLines .code t).filterMap lineHead? := by
  rw [lineHeads, codeLines, List.filterMap_filter]
  refine List.filterMap_congr fun written _ => ?_
  cases written <;> rfl

/-- Line breaks at the end of a text bind nothing. -/
theorem lineHeads_append_breaks
    (t : Text)
    (breaks : Nat) :
    lineHeads (t ++ List.replicate breaks (CodePoint.ofChar '\n')) = lineHeads t := by
  have ofOne : ∀ t : Text, lineHeads (t ++ "\n") = lineHeads t := by
    intro t
    rw [lineHeads_eq, lineHeads_eq]
    rcases outerLines_append_break .code t with ofText | ⟨others, last, isLast, ofText⟩
    · rw [ofText, List.filterMap_append]
      exact List.append_nil _
    · simp only [isLast, ofText, List.filterMap_append, List.filterMap_cons, List.filterMap_nil,
        lineHead?_append_break]
  induction breaks with
  | zero =>
      rw [List.replicate_zero, List.append_nil]
  | succ breaks inductionHypothesis =>
      rw [List.replicate_succ', ← List.append_assoc]
      exact (ofOne _).trans inductionHypothesis

/-!
## Statements
-/

/-- A text of whole lines of code, and what these bind. -/
def Binds (t : Text) (heads : List Head) : Prop :=
  ∀ rest, lineHeads (t ++ rest) = heads ++ lineHeads rest

theorem Binds.append
    {first second : Text}
    {ofFirst ofSecond : List Head}
    (firstBinds : Binds first ofFirst)
    (secondBinds : Binds second ofSecond) :
    Binds (first ++ second) (ofFirst ++ ofSecond) := by
  intro rest
  rw [List.append_assoc, firstBinds, secondBinds, List.append_assoc]

/-- What binds nothing stays so in a list. -/
theorem Binds.flatMap
    {items : List α}
    {written : α → Text}
    (each : ∀ item ∈ items, Binds (written item) []) :
    Binds (items.flatMap written) [] := by
  induction items with
  | nil =>
      exact fun _ => rfl
  | cons item items inductionHypothesis =>
      rw [List.forall_mem_cons] at each
      exact each.1.append (inductionHypothesis each.2)

theorem binds_blank
    (breaks : Nat) :
    Binds (line 0 [] breaks) [] :=
  fun rest => congrArg (List.filterMap lineHead?) (codeLines_replicate breaks rest)

/-- A line binds what is read from it. -/
theorem binds_line
    {t : Text}
    (closed : Closed t)
    (notEmpty : t ≠ [])
    (level breaks : Nat) :
    Binds (line level t (breaks + 1)) (lineHead? (margin level ++ t)).toList := by
  intro rest
  rw [lineHeads, codeLines_line closed notEmpty, List.filterMap_cons]
  cases lineHead? (margin level ++ t) <;> rfl

/-- An indented line binds nothing. -/
theorem binds_indented
    {t : Text}
    (closed : Closed t)
    (notEmpty : t ≠ [])
    (level breaks : Nat) :
    Binds (line (level + 1) t (breaks + 1)) [] :=
  binds_line closed notEmpty (level + 1) breaks

/-- What a statement begins with: neither a blank nor a line break. -/
def BeginsCode (t : Text) : Prop :=
  ∃ first others, t = first :: others ∧ first ≠ ' ' ∧ first ≠ '\n'

theorem beginsCode_of_isIdentifier
    {name : Text}
    (isName : Text.isIdentifier name = true)
    (rest : Text) :
    BeginsCode (name ++ rest) := by
  obtain ⟨first, others, rfl, begins, -⟩ := Text.isIdentifier_iff.mp isName
  refine ⟨first, others ++ rest, rfl, ?_, ?_⟩
  all_goals
    rintro rfl
    exact absurd begins (by decide)

/-- A statement binds one name at most, that of its first line. -/
def IsStatement (t : Text) : Prop :=
  Binds t (head? t).toList

/-- A line at the margin is a statement with the lines that belong to it. -/
theorem isStatement_line
    {t more : Text}
    (closed : Closed t)
    (begins : BeginsCode t)
    (breaks : Nat)
    (ofMore : Binds more []) :
    IsStatement (line 0 t (breaks + 1) ++ more) := by
  obtain ⟨first, others, rfl, noBlank, noBreak⟩ := begins
  have sameHead :
      head? (line 0 (first :: others) (breaks + 1) ++ more) = lineHead? (first :: others) := by
    rw [lineHead?, if_neg noBlank, line_zero, lineBreaks, List.replicate_succ, List.append_assoc,
      List.cons_append]
    exact head?_append_break ⟨first, List.mem_cons_self, noBreak⟩ _
  have ofLine := (binds_line closed nofun 0 breaks).append ofMore
  rw [List.append_nil] at ofLine
  rw [IsStatement, sameHead]
  exact ofLine

theorem isStatement_of_line
    {t : Text}
    (closed : Closed t)
    (begins : BeginsCode t)
    (breaks : Nat) :
    IsStatement (line 0 t (breaks + 1)) := by
  rw [← List.append_nil (line 0 t (breaks + 1))]
  exact isStatement_line closed begins breaks fun _ => rfl

/-- An empty line in front of a statement belongs to it. -/
theorem IsStatement.blank
    {t : Text}
    (isStatement : IsStatement t) :
    IsStatement (line 0 [] 1 ++ t) :=
  (binds_blank 1).append isStatement

theorem isStatement_blank
    (breaks : Nat) :
    IsStatement (line 0 [] breaks) := by
  have noHead : head? (line 0 [] breaks) = none :=
    head?_of_breaks fun _ member => List.eq_of_mem_replicate member
  rw [IsStatement, noHead]
  exact binds_blank breaks

/-- Statements bind their names one after another. -/
theorem binds_flatten
    {written : List Text}
    (each : ∀ t ∈ written, IsStatement t) :
    Binds written.flatten (written.filterMap head?) := by
  induction written with
  | nil =>
      exact fun _ => rfl
  | cons t written inductionHypothesis =>
      rw [List.forall_mem_cons] at each
      have ofBoth := each.1.append (inductionHypothesis each.2)
      rw [List.flatten_cons, List.filterMap_cons]
      rw [IsStatement] at each
      cases isHead : head? t <;> rwa [isHead] at ofBoth

/-!
## The preamble
-/

theorem closed_inQuotes_word
    {word : Text}
    (isWord : Text.isIdentifier word = true) :
    Closed (inQuotes word) := by
  obtain ⟨first, others, rfl, -, continue_⟩ := Text.isIdentifier_iff.mp isWord
  refine closed_inQuotes nofun fun c member => CodePoint.isPlain_iff.mpr ⟨?_, ?_⟩
  all_goals
    rintro rfl
    exact absurd (continue_ _ member) (by decide)

theorem isStatement_integerType
    {sign : Text}
    (isName : Text.isIdentifier sign = true)
    (width : Nat) :
    IsStatement (integerType sign width) := by
  have ofName := isIdentifier_append_ofNat isName width
  have begins := beginsCode_of_isIdentifier ofName
  have closedName := closed_word ofName
  have closedQuoted := closed_inQuotes_word ofName
  rw [integerType]
  split
  all_goals
    refine isStatement_of_line ?_ ?_ 0
    · exact (((((closedName.append (by rfl)).append (by rfl)).append (by rfl)).append
        closedQuoted).append (by rfl))
    · simpa only [List.append_assoc] using begins _

/-- A class is a statement with the indented lines of its body. -/
theorem isStatement_class
    {name base : Text}
    (isName : Text.isIdentifier name = true)
    (closed : Closed base)
    {more : Text}
    (ofMore : Binds more []) :
    IsStatement (line 0 [] 1 ++ (line 0 ("class " ++ name ++ base) 1 ++ more)) := by
  have closedClass : Closed ("class " ++ name) := Closed.append (by rfl) (closed_word isName)
  exact (isStatement_line (closedClass.append closed) ⟨'c', _, rfl, by decide, by decide⟩ 0
    ofMore).blank

theorem isStatement_byteClass
    {name length : Text}
    (isName : Text.isIdentifier name = true)
    (closed : Closed length) :
    IsStatement (byteClass name length) := by
  have ofBody : Binds (line 1 ("length = " ++ length) 2) [] :=
    binds_indented (Closed.append (by rfl) closed)
      (List.append_ne_nil_of_left_ne_nil (by decide) _) 0 1
  have closedBase : Closed "(ByteArray):" := by
    rfl
  rw [byteClass, List.append_assoc]
  exact isStatement_class isName closedBase ofBody

theorem isStatement_of_mem_primitiveStatements
    {t : Text}
    (member : t ∈ primitiveStatements) :
    IsStatement t := by
  have closedNumber : ∀ n, Closed (Text.ofNat n) := by
    refine fun n => closed_of_isBare fun c isDigit => isBare_of_isTypeTextPart ?_
    rw [isTypeTextPart, CodePoint.continuesIdentifier_of_isDecimalDigit
      (Text.isDigit_of_mem_ofNat isDigit).2, Bool.true_or, Bool.true_or]
  simp only [primitiveStatements, List.mem_append, List.mem_map, List.mem_cons, List.not_mem_nil,
    or_false] at member
  rcases member with
    (((((rfl | ⟨width, -, rfl⟩) | rfl) | ⟨width, -, rfl⟩) | rfl) | ⟨size, -, rfl⟩) |
      rfl | rfl | rfl | rfl | rfl | rfl
  · exact isStatement_of_line (by rfl) ⟨'T', _, rfl, by decide, by decide⟩ 1
  · exact isStatement_integerType (by decide) width
  · exact isStatement_blank 1
  · exact isStatement_integerType (by decide) width
  · exact isStatement_blank 1
  · exact isStatement_byteClass (isIdentifier_append_ofNat (by decide) size) (closedNumber size)
  · exact isStatement_byteClass (by decide) (by rfl)
  · exact isStatement_byteClass (by decide) (by rfl)
  · exact isStatement_byteClass (by decide) (by rfl)
  · exact isStatement_blank 1
  · exact isStatement_of_line (by rfl) ⟨'N', _, rfl, by decide, by decide⟩ 0
  · exact isStatement_of_line (by rfl) ⟨'B', _, rfl, by decide, by decide⟩ 0

/-- The lines of the imports up to the last one. -/
def importLines : List Text :=
  imports.filter fun t => ! t.isEmpty && t ≠ importsEnd

/-- The imports are lines of code, and the last of them is where they end. -/
theorem codeLines_imports
    (rest : Text) :
    codeLines (imports.flatMap (line 0 · 1) ++ rest) =
      importLines ++ importsEnd :: codeLines rest := by
  have areBare : ∀ t ∈ imports, t.all isBare = true := by
    decide +kernel
  have each :
      ∀ t ∈ imports, ∀ rest,
        codeLines (line 0 t 1 ++ rest) = [t].filter (! ·.isEmpty) ++ codeLines rest := by
    intro t member rest
    cases t with
    | nil =>
        exact codeLines_replicate 1 rest
    | cons c t =>
        have isBare := List.all_eq_true.mp (areBare _ member)
        exact codeLines_line (closed_of_isBare isBare) nofun 0 0 rest
  have areLines :
      imports.flatMap (fun t => [t].filter (! ·.isEmpty)) = importLines ++ [importsEnd] := by
    decide +kernel
  rw [codeLines_flatMap each, areLines, List.append_assoc]
  rfl

/-- What is read behind the imports is read as lines of code. -/
theorem readHeads_imports
    (rest : Text) :
    readHeads (imports.flatMap (line 0 · 1) ++ rest) =
      imports.flatMap importHeads ++ lineHeads rest := by
  have notEnd : ∀ t ∈ importLines, t ≠ importsEnd := by
    intro t member
    simpa using (Bool.and_eq_true_iff.mp (List.mem_filter.mp member).2).2
  have sameHeads : importLines.flatMap importHeads = imports.flatMap importHeads := by
    decide +kernel
  have noHead : lineHead? importsEnd = none := by
    rfl
  rw [readHeads, codeLines_imports,
    List.takeWhile_append_of_pos (by simpa using notEnd),
    List.dropWhile_append_of_pos (by simpa using notEnd),
    List.takeWhile_cons_of_neg (by simp), List.dropWhile_cons_of_neg (by simp), List.append_nil,
    sameHeads, List.filterMap_cons, noHead]
  rfl

/-!
## The statements behind the preamble
-/

theorem isStatement_recordDefinition
    (record : RecordFields) :
    IsStatement (recordDefinition record) := by
  have isName := record.isIdentifier_name.1
  have ofFields : Closed (Value.dict record.entries).literal :=
    closed_dict (List.forall_mem_map.mpr fun field _ => closed_quoted field.2.render)
  have ofStart : Closed (record.name ++ " = TypedDict(" ++ inQuotes record.name ++ ", ") :=
    (((closed_word isName).append (by rfl)).append (closed_inQuotes_word isName)).append (by rfl)
  rw [recordDefinition_eq]
  refine isStatement_of_line (ofStart.between ofFields (by rfl)) ?_ 0
  simpa only [List.append_assoc] using beginsCode_of_isIdentifier isName _

theorem binds_eventDescription
    {entry : Text × EventDescription}
    (isEntry : IsEntry entry) :
    Binds (eventDescription entry.1 entry.2) [] := by
  have ofKey : Binds (line 1 (inQuotes entry.1 ++ ": EventDescription(") 1) [] :=
    binds_indented (closed_inQuotes_digits isEntry.isHash (by rfl) (by rfl)) nofun 0 0
  have ofText :
      ∀ start t : Text, Closed start → Binds (line 2 (start ++ t.quoted ++ ",") 1) [] :=
    fun start t ofStart =>
      binds_indented (ofStart.between (closed_quoted t) (by rfl))
        (List.append_ne_nil_of_right_ne_nil _ (by decide)) 1 0
  have ofParameters :
      Binds (entry.2.parameters.flatMap fun v => line 3 (v.literal ++ ",") 1) [] :=
    .flatMap fun v member =>
      binds_indented ((closed_literal (isEntry.plain v member)).append (by rfl))
        (List.append_ne_nil_of_right_ne_nil _ (by decide)) 2 0
  have ofFixed : ∀ level t, Closed t → t ≠ [] → Binds (line (level + 1) t 1) [] :=
    fun level t closed notEmpty => binds_indented closed notEmpty level 0
  exact ((((((ofKey.append (ofText _ _ (by rfl))).append (ofText _ _ (by rfl))).append
    (ofText _ _ (by rfl))).append (ofFixed 1 _ (by rfl) (by decide))).append ofParameters).append
      (ofFixed 1 _ (by rfl) (by decide))).append (ofFixed 0 _ (by rfl) (by decide))

/-- The line with which a mapping ends binds nothing. -/
theorem binds_mappingEnd :
    Binds (line 0 "\x7d" 2) [] :=
  binds_line (by rfl) (by decide) 0 1

theorem isStatement_eventDescriptions
    {entries : Keyed EventDescription}
    (areEntries : ∀ entry ∈ entries, IsEntry entry) :
    IsStatement (eventDescriptions entries) := by
  have ofEntries :
      Binds (entries.flatMap fun entry => eventDescription entry.1 entry.2) [] :=
    .flatMap fun entry member => binds_eventDescription (areEntries entry member)
  rw [eventDescriptions, List.append_assoc]
  exact isStatement_line (by rfl) ⟨'e', _, rfl, by decide, by decide⟩ 0
    (ofEntries.append binds_mappingEnd)

theorem isStatement_eventClass
    {type : EventType}
    (isName : Text.isIdentifier type.className = true) :
    IsStatement (eventClass type) := by
  have ofName : Closed ("name: Literal[" ++ type.eventName.quoted ++ "]") :=
    Closed.between (by rfl) (closed_quoted type.eventName) (by rfl)
  have ofParameters : Closed ("parameters: " ++ type.parameters.name) :=
    Closed.append (by rfl) (closed_word (RecordFields.isIdentifier_name type.parameters).1)
  have ofBody :=
    (binds_indented ofName (List.append_ne_nil_of_right_ne_nil _ (by decide)) 0 0).append
      (binds_indented ofParameters (List.append_ne_nil_of_left_ne_nil (by decide) _) 0 1)
  have closedBase : Closed "(DecodedEvent[TLargeInteger]):" := by
    rfl
  rw [eventClass, List.append_assoc, List.append_assoc]
  exact isStatement_class isName closedBase ofBody

theorem isStatement_eventUnion
    {types : List EventType}
    (areNames : ∀ type ∈ types, Text.isIdentifier type.className = true) :
    IsStatement (eventUnion types) := by
  have ofNames :
      Closed (Text.join ", " (types.map fun type => type.className ++ "[TLargeInteger]")) :=
    closed_join (List.forall_mem_map.mpr fun type member =>
      (closed_word (areNames type member)).append (by rfl))
  have ofUnion := Closed.between (by rfl : Closed "Event = Union[") ofNames (by rfl : Closed "]")
  rw [eventUnion.eq_def]
  split
  · exact isStatement_of_line (by rfl) ⟨'E', _, rfl, by decide, by decide⟩ 1
  · exact isStatement_of_line ofUnion ⟨'E', _, rfl, by decide, by decide⟩ 1

/-- What the registry of classes has of an event: a hash in hexadecimal digits and a name. -/
def IsClassEntry (entry : Text × Text) : Prop :=
  (∀ c ∈ entry.1, Names.isSmallHexDigit c = true) ∧ Text.isIdentifier entry.2 = true

theorem isStatement_eventClasses
    {classes : Keyed Text}
    (areEntries : ∀ entry ∈ classes, IsClassEntry entry) :
    IsStatement (eventClasses classes) := by
  have ofEntries :
      Binds (classes.flatMap fun entry =>
        line 1 (inQuotes entry.1 ++ ": " ++ entry.2 ++ ",") 1) [] :=
    .flatMap fun entry member =>
      have ofHash : Closed (inQuotes entry.1 ++ ": ") :=
        closed_inQuotes_digits (areEntries entry member).1 (by rfl) (by rfl)
      binds_indented ((ofHash.append (closed_word (areEntries entry member).2)).append (by rfl))
        (List.append_ne_nil_of_right_ne_nil _ (by decide)) 0 0
  rw [eventClasses, List.append_assoc]
  exact isStatement_line (by rfl) ⟨'e', _, rfl, by decide, by decide⟩ 0
    (ofEntries.append binds_mappingEnd)

theorem binds_method
    {normal : Text → Text}
    {className name : Text}
    {binding : FunctionBinding}
    {kind : MethodKind}
    (isReadable : IsReadable normal className binding kind name) :
    Binds (method binding kind name) [] := by
  intro rest
  have areIndented : (methodLines binding kind name).filterMap lineHead? = [] := by
    rw [methodLines, callLines, closingLines]
    cases kind <;> cases binding.payable <;> rfl
  rw [lineHeads, codeLines_method isReadable, List.filterMap_append, areIndented]
  rfl

theorem isStatement_contractClass
    {normal : Text → Text}
    {contract : ContractBinding}
    (isName : Text.isIdentifier contract.className = true)
    (areReadable :
      ∀ bound ∈ contract.boundMethods,
        IsReadable normal contract.className bound.binding bound.kind bound.name) :
    IsStatement (contractClass contract) := by
  have ofDocumentation :
      Binds (line 1 (contract.globalName ++ ":" ++ contract.contractName).quoted 2) [] :=
    binds_indented (closed_quoted _) nofun 0 1
  have ofMethods : Binds (contract.functions.flatMap methods) [] := by
    rw [funext methods_eq, ← List.flatMap_assoc]
    exact .flatMap fun bound member => binds_method (areReadable bound member)
  have ofBody :=
    ofDocumentation.append ((binds_indented (by rfl) (by decide) 0 0 :
        Binds (line 1 "_event_descriptions = event_descriptions" 1) []).append
      ((binds_indented (by rfl) (by decide) 0 1 :
        Binds (line 1 "_event_types = event_types" 2) []).append ofMethods))
  have closedBase : Closed "(Contract[TLargeInteger]):" := by
    rfl
  simp only [contractClass, List.append_assoc]
  simpa only [List.append_assoc] using isStatement_class isName closedBase ofBody

end Source

namespace Assembly

/-- The registry of classes has the names of classes under hashes. -/
def HasClassEntries (assembly : Assembly) : Prop :=
  ∀ entry ∈ assembly.eventClasses,
    (∀ c ∈ entry.1, Names.isSmallHexDigit c = true) ∧
      entry.2 ∈ assembly.eventTypes.map (·.className)

theorem hasClassEntries_of_ofOutput
    {suffix : Text}
    {output : CompilerOutput}
    {assembly : Assembly}
    {logs : List LogRecord}
    (assembled : ofOutput suffix output = .ok (assembly, logs)) :
    assembly.HasClassEntries := by
  refine holds_of_addContracts (fun added holds => ?_) (fun _ holds => holds) assembled nofun
  rcases addEvent_cases added with ⟨-, rfl⟩ | ⟨-, description, _, type, described, -, typed, rfl⟩
  · exact holds
  · intro entry member
    rw [List.map_append, List.mem_append]
    rcases Keyed.eq_or_mem_of_mem_put member with rfl | known
    · refine ⟨(isEntry_of_describe described).isHash, Or.inr ?_⟩
      exact List.mem_singleton.mpr (EventEntry.className_of_nominalType typed).symm
    · exact ⟨(holds entry known).1, Or.inl (holds entry known).2⟩

/-- What the lines of an assembled module bind is what its statements bind, if its
documentation stays between its quotes and its names are identifiers in normal form. -/
theorem readHeads_text_of_ofOutput
    {suffix : Text}
    {output : CompilerOutput}
    {assembly : Assembly}
    {logs : List LogRecord}
    (assembled : ofOutput suffix output = .ok (assembly, logs))
    {normal : Text → Text}
    (haveNames : ∀ contract ∈ assembly.contracts, contract.HasNormalNames normal)
    (areNames : ∀ type ∈ assembly.eventTypes, Text.isIdentifier type.className = true)
    (checked : ∀ contract ∈ assembly.contracts, Source.checkContract contract = .ok ()) :
    Source.readHeads (⟨Source.body assembly⟩ : GeneratedModule).text = Source.heads assembly := by
  have areBound := isBoundEach_of_addContracts assembled nofun
  have areClasses : ∀ entry ∈ assembly.eventClasses, Source.IsClassEntry entry := by
    intro entry member
    obtain ⟨isHash, isClass⟩ := hasClassEntries_of_ofOutput assembled entry member
    obtain ⟨type, isType, sameName⟩ := List.mem_map.mp isClass
    exact ⟨isHash, sameName ▸ areNames type isType⟩
  have areStatements :
      ∀ t ∈ Source.primitiveStatements ++ Source.statements assembly, Source.IsStatement t := by
    refine List.forall_mem_append.mpr
      ⟨fun t => Source.isStatement_of_mem_primitiveStatements, fun t isStatement => ?_⟩
    simp only [Source.statements, List.mem_append, List.mem_map, List.mem_cons, List.not_mem_nil,
      or_false] at isStatement
    rcases isStatement with
      ((((rfl | ⟨record, -, rfl⟩) | rfl | rfl) | ⟨type, isType, rfl⟩) | rfl | rfl | rfl) |
        ⟨contract, isContract, rfl⟩
    · exact Source.isStatement_blank 1
    · exact Source.isStatement_recordDefinition record
    · exact Source.isStatement_blank 2
    · exact Source.isStatement_eventDescriptions (hasEntries_of_ofOutput assembled)
    · exact Source.isStatement_eventClass (areNames type isType)
    · exact Source.isStatement_blank 1
    · exact Source.isStatement_eventUnion areNames
    · exact Source.isStatement_eventClasses areClasses
    · exact Source.isStatement_contractClass (haveNames contract isContract).ofClass.isIdentifier
        (Source.isReadable_of_checkContract (areBound contract isContract)
          (haveNames contract isContract) (checked contract isContract))
  -- The line breaks at the end of a module are not those of its statements.
  obtain ⟨breaks, isTrimmed⟩ :=
    Text.exists_eq_trimEnd_append (Source.statements assembly).flatten '\n'
  have ofTrimmed :
      Source.lineHeads (Source.primitiveStatements.flatten ++
          (Text.trimEnd (Source.statements assembly).flatten (· = '\n') ++ "\n")) =
        Source.lineHeads
          (Source.primitiveStatements ++ Source.statements assembly).flatten := by
    rw [List.flatten_append]
    conv_rhs => rw [isTrimmed]
    rw [← List.append_assoc, ← List.append_assoc, Source.lineHeads_append_breaks _ breaks]
    exact Source.lineHeads_append_breaks _ 1
  have ofStatements := Source.binds_flatten areStatements []
  rw [List.append_nil] at ofStatements
  rw [Source.text_eq_statements, List.append_assoc, List.append_assoc, Source.readHeads_imports,
    ofTrimmed, ofStatements, List.filterMap_append, Source.heads, Source.preambleHeads,
    List.append_assoc, List.append_assoc]
  exact congrArg _ (congrArg _ (List.append_nil _))

end Assembly

end ContractBindings
