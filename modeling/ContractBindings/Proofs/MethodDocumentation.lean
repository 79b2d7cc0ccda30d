import ContractBindings.Proofs.AnnotationNames
import ContractBindings.Proofs.ModuleLines
import ContractBindings.Proofs.ResultTypes
import ContractBindings.Source.Readable

namespace ContractBindings

/-!
# The documentation of a method

The signature, the parameters and the results of a function are copied into the
documentation of its methods as they are.  Types that are accepted and names that are
identifiers hold neither double quotes nor backslashes.  The names of results can be any
text.  Main statement: the documentation stays between its quotes exactly if the names of
the results do, and then it is read up to the quotes that are written behind it.
-/

/-- A code point that is neither a double quote nor a backslash. -/
def CodePoint.isPlain (c : CodePoint) : Bool :=
  c ≠ '"' && c ≠ '\\'

theorem CodePoint.isPlain_iff
    {c : CodePoint} :
    c.isPlain = true ↔ c ≠ '"' ∧ c ≠ '\\' := by
  rw [isPlain, Bool.and_eq_true, decide_eq_true_iff, decide_eq_true_iff]

namespace Text

/-- The quotes around documentation. -/
def tripleQuotes : Text :=
  "\"\"\""

/-- A text that stands between triple quotes as it is: they do not occur in it, and nothing
in it is an escape. -/
structure StaysQuoted (t : Text) : Prop where
  unclosed : ¬ tripleQuotes <:+: t
  unescaped : CodePoint.ofChar '\\' ∉ t

/-- A text of which no quotes and no escapes can be made. -/
def IsPlain (t : Text) : Prop :=
  ∀ c ∈ t, c.isPlain = true

/-!
## Infixes
-/

theorem prefix_append_cons_iff
    {part first second : Text}
    {c : CodePoint}
    (absent : c ∉ part) :
    part <+: first ++ c :: second ↔ part <+: first := by
  refine ⟨?_, fun stands => stands.trans (List.prefix_append _ _)⟩
  rintro ⟨rest, whole⟩
  rcases List.append_eq_append_iff.mp whole with ⟨others, isFirst, -⟩ | ⟨others, isPart, behind⟩
  · exact ⟨others, isFirst.symm⟩
  · cases others with
    | nil =>
        have isFirst : part = first := isPart.trans (List.append_nil first)
        exact isFirst ▸ List.prefix_rfl
    | cons d others =>
        obtain ⟨rfl, -⟩ := List.cons.inj behind
        exact absurd (isPart ▸ List.mem_append_right first List.mem_cons_self) absent

/-- A part of a text does not reach over a code point that is not in it. -/
theorem infix_append_cons_iff
    {part first second : Text}
    {c : CodePoint}
    (absent : c ∉ part) :
    part <:+: first ++ c :: second ↔ part <:+: first ∨ part <:+: second := by
  induction first with
  | nil =>
      have ofEmpty : part <+: [] ++ c :: second ↔ part <+: [] := prefix_append_cons_iff absent
      rw [List.nil_append] at ofEmpty ⊢
      rw [List.infix_cons_iff, ofEmpty, List.prefix_nil, List.infix_nil]
  | cons d first inductionHypothesis =>
      rw [List.cons_append, List.infix_cons_iff, List.infix_cons_iff, inductionHypothesis,
        ← List.cons_append, prefix_append_cons_iff absent, or_assoc]

/-!
## Texts between triple quotes
-/

theorem notMem_tripleQuotes
    {c : CodePoint}
    (plain : c.isPlain = true) :
    c ∉ tripleQuotes := by
  have areQuotes : tripleQuotes = List.replicate 3 (CodePoint.ofChar '"') := rfl
  rw [areQuotes, List.mem_replicate]
  exact fun isQuote => (CodePoint.isPlain_iff.mp plain).1 isQuote.2

/-- A plain code point parts a text into two. -/
theorem staysQuoted_append_cons_iff
    {first second : Text}
    {c : CodePoint}
    (plain : c.isPlain = true) :
    StaysQuoted (first ++ c :: second) ↔ StaysQuoted first ∧ StaysQuoted second := by
  have notInQuotes := notMem_tripleQuotes plain
  rw [CodePoint.isPlain_iff] at plain
  constructor
  · rintro ⟨unclosed, unescaped⟩
    rw [infix_append_cons_iff notInQuotes, not_or] at unclosed
    rw [List.mem_append, List.mem_cons, not_or, not_or] at unescaped
    exact ⟨⟨unclosed.1, unescaped.1⟩, ⟨unclosed.2, unescaped.2.2⟩⟩
  · rintro ⟨ofFirst, ofSecond⟩
    refine ⟨?_, ?_⟩
    · rw [infix_append_cons_iff notInQuotes, not_or]
      exact ⟨ofFirst.unclosed, ofSecond.unclosed⟩
    · rw [List.mem_append, List.mem_cons, not_or, not_or]
      exact ⟨ofFirst.unescaped, plain.2.symm, ofSecond.unescaped⟩

theorem staysQuoted_nil :
    StaysQuoted [] :=
  ⟨by decide, by decide⟩

theorem IsPlain.append
    {first second : Text}
    (ofFirst : IsPlain first)
    (ofSecond : IsPlain second) :
    IsPlain (first ++ second) :=
  List.forall_mem_append.mpr ⟨ofFirst, ofSecond⟩

/-- What is plain does not matter at the beginning of a text. -/
theorem IsPlain.staysQuoted_append_iff
    {first : Text}
    (plain : IsPlain first)
    (second : Text) :
    StaysQuoted (first ++ second) ↔ StaysQuoted second := by
  induction first with
  | nil =>
      rfl
  | cons c first inductionHypothesis =>
      obtain ⟨isPlain, arePlain⟩ := List.forall_mem_cons.mp plain
      have parted : StaysQuoted ([] ++ c :: (first ++ second)) ↔ _ :=
        staysQuoted_append_cons_iff isPlain
      rw [List.nil_append] at parted
      rw [List.cons_append, parted, inductionHypothesis arePlain]
      exact and_iff_right staysQuoted_nil

theorem IsPlain.staysQuoted
    {t : Text}
    (plain : IsPlain t) :
    StaysQuoted t := by
  have parted := plain.staysQuoted_append_iff []
  rw [List.append_nil] at parted
  exact parted.mpr staysQuoted_nil

/-- What is plain does not matter at the end of a text. -/
theorem IsPlain.append_staysQuoted_iff
    {second : Text}
    (plain : IsPlain second)
    (first : Text) :
    StaysQuoted (first ++ second) ↔ StaysQuoted first := by
  cases second with
  | nil =>
      rw [List.append_nil]
  | cons c second =>
      obtain ⟨isPlain, arePlain⟩ := List.forall_mem_cons.mp plain
      rw [staysQuoted_append_cons_iff isPlain]
      exact and_iff_left (IsPlain.staysQuoted arePlain)

theorem isPlain_replicate
    (n : Nat)
    {c : CodePoint}
    (plain : c.isPlain = true) :
    IsPlain (List.replicate n c) :=
  fun _ member => (List.eq_of_mem_replicate member) ▸ plain

/-- The blanks that are dropped at the end of a text are plain. -/
theorem staysQuoted_trimEnd_iff
    (t : Text) :
    StaysQuoted (trimEnd t CodePoint.isBlank) ↔ StaysQuoted t := by
  have blanksArePlain : IsPlain (t.reverse.takeWhile CodePoint.isBlank).reverse := by
    intro c member
    have isBlank := List.mem_takeWhile_imp (List.mem_reverse.mp member)
    rw [CodePoint.isPlain_iff]
    refine ⟨?_, ?_⟩
    all_goals
      rintro rfl
      exact absurd isBlank (by decide)
  have whole : trimEnd t CodePoint.isBlank ++ (t.reverse.takeWhile CodePoint.isBlank).reverse =
      t := by
    rw [trimEnd, ← List.reverse_append, List.takeWhile_append_dropWhile, List.reverse_reverse]
  conv_rhs => rw [← whole]
  exact (blanksArePlain.append_staysQuoted_iff _).symm

/-!
## Plain names and types
-/

theorem isPlain_of_isAsciiWord
    {t : Text}
    (areWords : ∀ c ∈ t, c.isAsciiWord = true) :
    IsPlain t := by
  intro c member
  have isWord := areWords c member
  rw [CodePoint.isPlain_iff]
  refine ⟨?_, ?_⟩
  all_goals
    rintro rfl
    exact absurd isWord (by decide)

theorem isPlain_of_isDecimalDigit
    {t : Text}
    (areDigits : ∀ c ∈ t, c.isDecimalDigit = true) :
    IsPlain t := by
  intro c member
  have isDigit := areDigits c member
  rw [CodePoint.isPlain_iff]
  refine ⟨?_, ?_⟩
  all_goals
    rintro rfl
    exact absurd isDigit (by decide +kernel)

theorem isPlain_arraySuffixes
    {sizes : List Text}
    (areDigits : ∀ size ∈ sizes, ∀ c ∈ size, c.isDecimalDigit = true) :
    IsPlain (arraySuffixes sizes) := by
  have brackets : IsPlain "[" ∧ IsPlain "]" :=
    ⟨List.all_eq_true.mp (by decide), List.all_eq_true.mp (by decide)⟩
  intro c member
  obtain ⟨size, isSize, inSuffix⟩ := List.mem_flatMap.mp member
  have digits := isPlain_of_isDecimalDigit (areDigits size isSize)
  exact ((brackets.1.append digits).append brackets.2) c inSuffix

theorem isPlain_join
    {parts : List Text}
    (each : ∀ part ∈ parts, IsPlain part) :
    IsPlain (join "," parts) := by
  have comma : IsPlain "," := List.all_eq_true.mp (by decide)
  induction parts with
  | nil =>
      exact nofun
  | cons first others inductionHypothesis =>
      obtain ⟨ofFirst, ofOthers⟩ := List.forall_mem_cons.mp each
      cases others with
      | nil =>
          rwa [join_singleton]
      | cons second others =>
          rw [join_cons_cons]
          exact ofFirst.append (comma.append (inductionHypothesis ofOthers))

end Text

namespace TypeExpression

/-- The base of an accepted type is plain, and so are its array suffixes. -/
theorem isPlain_type
    {place : Option Place}
    {marks : Entries}
    {parameter : Parameter}
    {expression : TypeExpression}
    (mapped : ofParameter place marks parameter = .ok expression) :
    parameter.type.IsPlain := by
  obtain ⟨base, count, element, ⟨sizes, ending, -, areDigits, isEnding, whole⟩, -, isBase⟩ :=
    ofParameter_cases mapped
  have basePlain : (Text.dropLineBreak base).IsPlain := by
    rcases isBase with
      ⟨first, letters, digits, written, -, areLetters, areDecimal, -⟩ | ⟨isTuple, -⟩
    · have lettersPlain : Text.IsPlain (first :: letters) :=
        Text.isPlain_of_isAsciiWord fun c member => by
          rw [CodePoint.isAsciiWord, List.all_eq_true.mp areLetters c member]
          rfl
      rw [written]
      exact lettersPlain.append (Text.isPlain_of_isDecimalDigit areDecimal)
    · rw [isTuple]
      exact List.all_eq_true.mp (by decide)
  have endingPlain : ending.IsPlain := by
    rcases isEnding with rfl | rfl <;> exact List.all_eq_true.mp (by decide)
  rw [whole]
  exact basePlain.append ((Text.isPlain_arraySuffixes areDigits).append endingPlain)

end TypeExpression

namespace Parameter

theorem canonicalTypes_eq_ok_iff
    {place : Option Place}
    {parameters : List Parameter}
    {types : List Text} :
    canonicalTypes place parameters = .ok types ↔
      parameters.mapM (canonicalType place []) = .ok types := by
  induction parameters generalizing types with
  | nil =>
      rfl
  | cons first others inductionHypothesis =>
      simp only [canonicalTypes, List.mapM_cons, bind_eq_ok_iff, inductionHypothesis]

/-- The type of an accepted parameter is plain in a signature. -/
theorem isPlain_canonicalType
    (parameter : Parameter)
    {place : Option Place}
    {marks : Entries}
    {expression : TypeExpression}
    (mapped : TypeExpression.ofParameter place marks parameter = .ok expression)
    {type : Text}
    (canonical : parameter.canonicalType place marks = .ok type) :
    type.IsPlain := by
  have parentheses : Text.IsPlain "(" ∧ Text.IsPlain ")" :=
    ⟨List.all_eq_true.mp (by decide), List.all_eq_true.mp (by decide)⟩
  have ownPlain := TypeExpression.isPlain_type mapped
  induction parameter using inductionOnComponents generalizing marks expression type with
  | plain name text internalType =>
      rw [canonicalType] at canonical
      split at canonical
      case h_1 =>
        cases canonical
        exact ownPlain
      case h_2 suffix isTuple =>
        obtain ⟨fields, ofFields, notNil⟩ :=
          TypeExpression.exists_components_of_dropStart? mapped isTuple
        cases ofFields
        exact absurd rfl notNil
  | tuple name text components internalType inductionHypothesis =>
      rw [canonicalType] at canonical
      split at canonical
      case h_1 =>
        cases canonical
        exact ownPlain
      case h_2 suffix isTuple =>
        obtain ⟨fields, ofFields, notNil⟩ :=
          TypeExpression.exists_components_of_dropStart? mapped isTuple
        obtain ⟨types, ofTypes, canonical⟩ := bind_eq_ok_iff.mp canonical
        have typesPlain : ∀ type ∈ types, Text.IsPlain type := by
          refine forall_mem_of_mapM (canonicalTypes_eq_ok_iff.mp ofTypes) ?_
          intro component isComponent type ofComponent
          obtain ⟨own, ownMapped⟩ :=
            TypeExpression.exists_of_ofParameters ofFields component isComponent
          exact inductionHypothesis component isComponent ownMapped ofComponent
            (TypeExpression.isPlain_type ownMapped)
        have suffixPlain : suffix.IsPlain := by
          intro c member
          refine ownPlain c ?_
          rw [Text.eq_append_of_dropStart? isTuple]
          exact List.mem_append_right _ member
        split at canonical
        case h_1 =>
          cases canonical
        case h_2 =>
          cases canonical
          exact ((parentheses.1.append (Text.isPlain_join typesPlain)).append
            parentheses.2).append suffixPlain

end Parameter

namespace Names

/-- A letter, the underscore or the dollar sign. -/
def isSolidityLetter (c : CodePoint) : Bool :=
  c.isAsciiLetter || c = '_' || c = '$'

/-- The identifiers of contracts in the source. -/
def isSolidityIdentifier : (name : Text) → Bool
  | [] => false
  | first :: others =>
      isSolidityLetter first && others.all fun c => isSolidityLetter c || c.isAsciiDigit

theorem isPlain_of_isSolidityIdentifier
    {name : Text}
    (isIdentifier : isSolidityIdentifier name = true) :
    name.IsPlain := by
  have eachIsPlain : ∀ c, (isSolidityLetter c || c.isAsciiDigit) = true → c.isPlain = true := by
    intro c allowed
    rw [CodePoint.isPlain_iff]
    refine ⟨?_, ?_⟩
    all_goals
      rintro rfl
      exact absurd allowed (by decide)
  cases name with
  | nil =>
      cases isIdentifier
  | cons first others =>
      rw [isSolidityIdentifier, Bool.and_eq_true, List.all_eq_true] at isIdentifier
      refine List.forall_mem_cons.mpr ⟨eachIsPlain first ?_, fun c member =>
        eachIsPlain c (isIdentifier.2 c member)⟩
      rw [isIdentifier.1, Bool.true_or]

theorem isPlain_of_appendUnderscores
    {clashes : Text → Bool}
    {bound : Nat}
    {name own : Text}
    (plain : name.IsPlain)
    (found : appendUnderscores clashes bound name = some own) :
    own.IsPlain := by
  induction bound generalizing name with
  | zero =>
      cases found
  | succ bound inductionHypothesis =>
      rw [appendUnderscores] at found
      split at found
      case isTrue =>
        exact inductionHypothesis (plain.append (List.all_eq_true.mp (by decide))) found
      case isFalse =>
        cases found
        exact plain

/-- What a name is made of without its underscore is plain, or the number of its place is. -/
theorem isPlain_parameterStem
    {name : Text}
    (plain : name.IsPlain)
    (place : Nat) :
    (parameterStem place name).IsPlain := by
  have argument : Text.IsPlain ("arg" ++ Text.ofNat place) :=
    Text.IsPlain.append (List.all_eq_true.mp (by decide))
      (Text.isPlain_of_isDecimalDigit fun _ member => (Text.isDigit_of_mem_ofNat member).2)
  have rest : ((Text.dropStart? name "_").getD name).IsPlain := by
    cases dropped : Text.dropStart? name "_" with
    | none =>
        exact plain
    | some rest =>
        rw [Text.eq_append_of_dropStart? dropped] at plain
        exact fun c member => plain c (List.mem_append_right _ member)
  rw [parameterStem]
  split
  case h_1 =>
    exact argument
  case h_2 =>
    exact rest

/-- The names of the parameters of a method are plain if those in the interface are. -/
theorem isPlain_of_parameterNamesFrom?
    {place : Nat}
    {taken names own : List Text}
    (plain : ∀ name ∈ names, Text.IsPlain name)
    (found : parameterNamesFrom? place taken names = some own) :
    ∀ name ∈ own, Text.IsPlain name := by
  induction names generalizing place taken own with
  | nil =>
      cases found
      simp
  | cons name names inductionHypothesis =>
      simp only [parameterNamesFrom?, Option.bind_eq_bind, Option.bind_eq_some_iff,
        Option.pure_def, Option.some.injEq] at found
      obtain ⟨first, ofFirst, others, ofOthers, rfl⟩ := found
      obtain ⟨namePlain, namesPlain⟩ := List.forall_mem_cons.mp plain
      have replaced :
          Text.IsPlain (Text.replace (parameterStem place name) '$' '_') := by
        intro c member
        obtain ⟨d, inStem, rfl⟩ := List.mem_map.mp member
        split
        · rfl
        · exact isPlain_parameterStem namePlain place d inStem
      exact List.forall_mem_cons.mpr
        ⟨isPlain_of_appendUnderscores replaced ofFirst, inductionHypothesis namesPlain ofOthers⟩

end Names

namespace FunctionBinder

/-- What the documentation of the methods of an accepted function is made of. -/
structure Documents (place : Place) (function : FunctionEntry) (binding : FunctionBinding)
    (types names : List Text) : Prop where
  signature : binding.signature = signatureOf function.name types
  canonical : Parameter.canonicalTypes (some place) function.inputs = .ok types
  named : Names.parameterNames? (function.inputs.map (·.name)) = some names
  accepted :
    ∀ input ∈ function.inputs, ∃ expression,
      TypeExpression.ofParameter (some place) [] input = .ok expression
  parameters :
    ∀ parameter ∈ binding.parameters,
      parameter.name ∈ names ∧ ∃ input ∈ function.inputs, parameter.abiType = input.type
  outputs : binding.outputs = function.outputs
  results :
    ∀ output ∈ function.outputs, ∃ expression,
      TypeExpression.ofParameter (some place) [] output = .ok expression

theorem documents_of_bind
    {binder after : FunctionBinder}
    {function : FunctionEntry}
    {binding : FunctionBinding}
    {logs : List LogRecord}
    (accepted : binder.bind function = (.ok binding, after, logs)) :
    ∃ types names, Documents ⟨binder.contract, function.name⟩ function binding types names := by
  have attempt := attempt_bind binder function
  rw [accepted] at attempt
  cases attempt with
  | bound isOutline =>
      obtain ⟨types, names, expressions, outlines⟩ := outlines_of_outline isOutline
      refine ⟨types, names, outlines.signature, outlines.canonical, outlines.named,
        fun input => exists_of_mapM outlines.typed, fun parameter member => ?_, rfl,
        TypeExpression.exists_of_ofResults outlines.returns⟩
      rw [bindingOf, outlines.parameters] at member
      obtain ⟨⟨name, expression, input⟩, isZipped, rfl⟩ := List.mem_map.mp member
      obtain ⟨isName, inRest⟩ := List.of_mem_zip isZipped
      exact ⟨isName, input, (List.of_mem_zip inRest).2, rfl⟩

end FunctionBinder

namespace Source

/-- What stands between the quotes of the documentation of a method. -/
def documented (binding : FunctionBinding) (kind : MethodKind) : Text :=
  let purpose : Text := match kind with
    | .localCall => "Execute " ++ binding.signature ++ " as a call."
    | .remoteCall =>
        "Execute " ++ binding.signature ++ " as a transaction and return the emitted events."
  let results := match kind with
    | .localCall => resultLines binding
    | .remoteCall => []
  "\n" ++ line 2 purpose 1 ++ argumentLines binding ++ results ++ indentation

theorem documentation_eq
    (binding : FunctionBinding)
    (kind : MethodKind) :
    documentation binding kind =
      indentation ++ Text.tripleQuotes ++ documented binding kind ++ Text.tripleQuotes ++ "\n" := by
  have opening : line 2 "\"\"\"" 1 = indentation ++ Text.tripleQuotes ++ "\n" := rfl
  cases kind <;> simp only [documentation, documented, opening, List.append_assoc]

theorem isPlain_margin
    (level : Nat) :
    Text.IsPlain (List.replicate (4 * level) (CodePoint.ofChar ' ')) :=
  Text.isPlain_replicate _ (by decide)

/-- A line stays between quotes if its text does. -/
theorem staysQuoted_line_iff
    (level : Nat)
    (t : Text)
    (breaks : Nat)
    (rest : Text) :
    Text.StaysQuoted (line level t (breaks + 1) ++ rest) ↔ t.StaysQuoted ∧ rest.StaysQuoted := by
  have isLine : line level t (breaks + 1) ++ rest =
      List.replicate (4 * level) (CodePoint.ofChar ' ') ++
        (t ++ CodePoint.ofChar '\n' ::
          (List.replicate breaks (CodePoint.ofChar '\n') ++ rest)) := by
    rw [line, List.replicate_succ]
    simp only [List.append_assoc, List.cons_append]
  rw [isLine, (isPlain_margin level).staysQuoted_append_iff,
    Text.staysQuoted_append_cons_iff (by decide),
    (Text.isPlain_replicate breaks (by decide)).staysQuoted_append_iff]

/-- Lines stay between quotes if each of them does. -/
theorem staysQuoted_lines_iff
    {α : Type}
    (level : Nat)
    (write : α → Text)
    (items : List α)
    (rest : Text) :
    Text.StaysQuoted (items.flatMap (fun item => line level (write item) 1) ++ rest) ↔
      (∀ item ∈ items, (write item).StaysQuoted) ∧ rest.StaysQuoted := by
  induction items with
  | nil =>
      exact (and_iff_right nofun).symm
  | cons item items inductionHypothesis =>
      rw [List.flatMap_cons, List.append_assoc, staysQuoted_line_iff level (write item) 0,
        inductionHypothesis, List.forall_mem_cons, and_assoc]

theorem staysQuoted_argumentLines_iff
    {binding : FunctionBinding}
    (plain :
      ∀ parameter ∈ binding.parameters, parameter.name.IsPlain ∧ parameter.abiType.IsPlain)
    (rest : Text) :
    Text.StaysQuoted (argumentLines binding ++ rest) ↔ rest.StaysQuoted := by
  have colon : Text.IsPlain ": " := List.all_eq_true.mp (by decide)
  have title : Text.StaysQuoted "Args:" :=
    Text.IsPlain.staysQuoted (List.all_eq_true.mp (by decide))
  have each :
      ∀ parameter ∈ binding.parameters,
        Text.StaysQuoted (parameter.name ++ ": " ++ parameter.abiType) := by
    intro parameter member
    obtain ⟨namePlain, typePlain⟩ := plain parameter member
    exact ((namePlain.append colon).append typePlain).staysQuoted
  rw [argumentLines]
  split
  case h_1 =>
    rfl
  case h_2 =>
    simp only [List.append_assoc] at each ⊢
    rw [staysQuoted_line_iff 0 [] 0, staysQuoted_line_iff 2 _ 0, staysQuoted_lines_iff 3]
    exact ⟨fun stays => stays.2.2.2, fun stays => ⟨Text.staysQuoted_nil, title, each, stays⟩⟩

/-- Of a result only the name matters. -/
theorem staysQuoted_resultLines_iff
    {binding : FunctionBinding}
    (plain : ∀ output ∈ binding.outputs, output.type.IsPlain)
    (rest : Text) :
    Text.StaysQuoted (resultLines binding ++ rest) ↔
      (∀ output ∈ binding.outputs, output.name.StaysQuoted) ∧ rest.StaysQuoted := by
  have blank : Text.IsPlain " " := List.all_eq_true.mp (by decide)
  have title : Text.StaysQuoted "Returns:" :=
    Text.IsPlain.staysQuoted (List.all_eq_true.mp (by decide))
  have each :
      ∀ output ∈ binding.outputs,
        Text.StaysQuoted (Text.trimEnd (output.type ++ " " ++ output.name) CodePoint.isBlank) ↔
          output.name.StaysQuoted := by
    intro output member
    rw [Text.staysQuoted_trimEnd_iff]
    exact ((plain output member).append blank).staysQuoted_append_iff output.name
  rw [resultLines]
  split
  case h_1 noOutputs =>
    rw [noOutputs]
    exact (and_iff_right nofun).symm
  case h_2 =>
    simp only [List.append_assoc] at each ⊢
    rw [staysQuoted_line_iff 0 [] 0, staysQuoted_line_iff 2 _ 0, staysQuoted_lines_iff 3,
      forall₂_congr each]
    exact ⟨fun stays => stays.2.2, fun stays => ⟨Text.staysQuoted_nil, title, stays⟩⟩

/-- A documentation is made of the signature, the parameters and, for a local method, the
results. -/
theorem staysQuoted_documented_iff
    {binding : FunctionBinding}
    (signaturePlain : binding.signature.IsPlain)
    (parametersPlain :
      ∀ parameter ∈ binding.parameters, parameter.name.IsPlain ∧ parameter.abiType.IsPlain)
    (typesPlain : ∀ output ∈ binding.outputs, output.type.IsPlain)
    (kind : MethodKind) :
    (documented binding kind).StaysQuoted ↔
      (kind = .localCall → ∀ output ∈ binding.outputs, output.name.StaysQuoted) := by
  have lineBreak : Text.IsPlain "\n" := List.all_eq_true.mp (by decide)
  have ending : Text.StaysQuoted indentation := (Text.isPlain_replicate 8 (by decide)).staysQuoted
  have execute : Text.IsPlain "Execute " := List.all_eq_true.mp (by decide)
  have called : Text.StaysQuoted ("Execute " ++ binding.signature ++ " as a call.") :=
    ((execute.append signaturePlain).append (List.all_eq_true.mp (by decide))).staysQuoted
  have submitted :
      Text.StaysQuoted ("Execute " ++ binding.signature ++
        " as a transaction and return the emitted events.") :=
    ((execute.append signaturePlain).append (List.all_eq_true.mp (by decide))).staysQuoted
  cases kind with
  | localCall =>
      rw [documented]
      simp only [List.append_assoc]
      rw [lineBreak.staysQuoted_append_iff, staysQuoted_line_iff 2 _ 0,
        staysQuoted_argumentLines_iff parametersPlain, staysQuoted_resultLines_iff typesPlain]
      rw [List.append_assoc] at called
      exact ⟨fun stays _ => stays.2.1, fun stays => ⟨called, stays trivial, ending⟩⟩
  | remoteCall =>
      simp only [documented, List.append_assoc, List.nil_append]
      rw [lineBreak.staysQuoted_append_iff, staysQuoted_line_iff 2 _ 0,
        staysQuoted_argumentLines_iff parametersPlain]
      rw [List.append_assoc] at submitted
      exact ⟨fun _ => nofun, fun _ => ⟨submitted, ending⟩⟩

/-!
## Reading a documentation
-/

/-- Quotes begin a text, or they end it. -/
theorem checkQuotedLine_tripleQuotes
    (fuel : Nat)
    (isInside : Bool)
    (rest : Text) :
    checkQuotedLine (fuel + 1) isInside (Text.tripleQuotes ++ rest) =
      checkQuotedLine fuel (! isInside) rest := by
  have dropped := Text.dropStart?_append Text.tripleQuotes rest
  rw [Text.tripleQuotes] at dropped ⊢
  rw [checkQuotedLine.eq_def]
  simp only [dropped]

/-- The quotes that begin a text stand behind its indentation. -/
theorem checkQuotedLine_opening
    (fuel : Nat)
    (rest : Text) :
    checkQuotedLine (fuel + 9) false (indentation ++ (Text.tripleQuotes ++ rest)) =
      checkQuotedLine fuel true rest := by
  have pastBlanks :
      checkQuotedLine (fuel + 9) false (indentation ++ (Text.tripleQuotes ++ rest)) =
        checkQuotedLine (fuel + 1) false (Text.tripleQuotes ++ rest) :=
    rfl
  rw [pastBlanks, checkQuotedLine_tripleQuotes]
  rfl

/-- A text that stays between its quotes is read up to those behind it, unless quotes of its
own stand directly in front of them. -/
theorem checkQuotedLine_of_staysQuoted
    {t : Text}
    (stays : t.StaysQuoted)
    {last : CodePoint}
    (plain : last.isPlain = true)
    (fuel : Nat)
    (rest : Text) :
    checkQuotedLine (fuel + 2 + t.length) true (t ++ last :: (Text.tripleQuotes ++ rest)) =
      checkQuotedLine fuel false rest := by
  have notInQuotes := Text.notMem_tripleQuotes plain
  have notYet :
      ∀ first, ¬ Text.tripleQuotes <+: first →
        Text.dropStart? (first ++ last :: (Text.tripleQuotes ++ rest)) "\"\"\"" = none := by
    intro first unclosed
    refine Option.eq_none_iff_forall_ne_some.mpr fun others dropped => unclosed ?_
    rw [← Text.prefix_append_cons_iff notInQuotes]
    exact ⟨others, (Text.eq_append_of_dropStart? dropped).symm⟩
  induction t with
  | nil =>
      have unescaped := (CodePoint.isPlain_iff.mp plain).2
      have noQuotes := notYet [] (by decide)
      rw [List.nil_append] at noQuotes ⊢
      rw [List.length_nil, checkQuotedLine, noQuotes]
      simp only [unescaped, ↓reduceIte, checkQuotedLine_tripleQuotes, Bool.not_true]
  | cons c t inductionHypothesis =>
      have unescaped := List.ne_of_not_mem_cons stays.unescaped
      have others : Text.StaysQuoted t :=
        ⟨fun stands => stays.unclosed (stands.trans (List.suffix_cons c t).isInfix),
          List.not_mem_of_not_mem_cons stays.unescaped⟩
      have noQuotes := notYet (c :: t) fun stands => stays.unclosed stands.isInfix
      rw [List.cons_append] at noQuotes ⊢
      rw [List.length_cons, ← Nat.add_assoc, checkQuotedLine, noQuotes]
      simp only [unescaped.symm, ↓reduceIte, inductionHypothesis others]

/-- A documentation that stays between its quotes is read up to the quotes written behind
it. -/
theorem checkQuotedLine_documented
    {binding : FunctionBinding}
    {kind : MethodKind}
    (stays : (documented binding kind).StaysQuoted)
    (fuel : Nat)
    (rest : Text) :
    checkQuotedLine (fuel + 1 + (documented binding kind).length) true
        (documented binding kind ++ (Text.tripleQuotes ++ rest)) =
      checkQuotedLine fuel false rest := by
  -- The last code point is a blank of the indentation of the closing quotes.
  obtain ⟨others, whole⟩ : ∃ others, documented binding kind = others ++ [CodePoint.ofChar ' '] :=
    ⟨_, (List.append_assoc _ (List.replicate 7 (CodePoint.ofChar ' ')) _).symm⟩
  rw [whole] at stays ⊢
  have othersStay := ((Text.staysQuoted_append_cons_iff (by decide)).mp stays).1
  rw [List.append_assoc, List.length_append, List.length_singleton, ← Nat.add_assoc,
    Nat.add_right_comm]
  exact checkQuotedLine_of_staysQuoted othersStay (by decide) fuel rest

/-- A documentation that stays between its quotes is read as one. -/
theorem checkQuotedLine_documentation
    {binding : FunctionBinding}
    {kind : MethodKind}
    (stays : (documented binding kind).StaysQuoted) :
    checkQuotedLine ((documentation binding kind).length + 1) false
        (documentation binding kind) =
      .ok () := by
  have whole :
      documentation binding kind =
        indentation ++ (Text.tripleQuotes ++
          (documented binding kind ++ (Text.tripleQuotes ++ Text.ofString "\n"))) := by
    rw [documentation_eq]
    simp only [List.append_assoc]
  have isLong :
      (documentation binding kind).length + 1 =
        5 + 1 + 1 + (documented binding kind).length + 9 := by
    rw [whole]
    simp only [List.length_append]
    have lengths : indentation.length = 8 ∧ Text.tripleQuotes.length = 3 ∧
        (Text.ofString "\n").length = 1 :=
      ⟨rfl, rfl, rfl⟩
    omega
  rw [isLong, whole, checkQuotedLine_opening, checkQuotedLine_documented stays]
  rfl

end Source

namespace FunctionBinder

/-- The signature, the parameters and the types of the results of an accepted function are
plain if its name and those of its parameters are. -/
theorem isPlain_of_documents
    {place : Place}
    {function : FunctionEntry}
    {binding : FunctionBinding}
    {types names : List Text}
    (documents : Documents place function binding types names)
    (namePlain : function.name.IsPlain)
    (inputsPlain : ∀ input ∈ function.inputs, input.name.IsPlain) :
    binding.signature.IsPlain ∧
      (∀ parameter ∈ binding.parameters, parameter.name.IsPlain ∧ parameter.abiType.IsPlain) ∧
        ∀ output ∈ binding.outputs, output.type.IsPlain := by
  have typesPlain : ∀ type ∈ types, Text.IsPlain type := by
    refine forall_mem_of_mapM (Parameter.canonicalTypes_eq_ok_iff.mp documents.canonical) ?_
    intro input isInput type canonical
    obtain ⟨expression, mapped⟩ := documents.accepted input isInput
    exact Parameter.isPlain_canonicalType input mapped canonical
  have namesPlain : ∀ name ∈ names, Text.IsPlain name :=
    Names.isPlain_of_parameterNamesFrom? (List.forall_mem_map.mpr inputsPlain) documents.named
  refine ⟨?_, ?_, ?_⟩
  · have parentheses : Text.IsPlain "(" ∧ Text.IsPlain ")" :=
      ⟨List.all_eq_true.mp (by decide), List.all_eq_true.mp (by decide)⟩
    rw [documents.signature, signatureOf]
    exact ((namePlain.append parentheses.1).append (Text.isPlain_join typesPlain)).append
      parentheses.2
  · intro parameter member
    obtain ⟨isName, input, isInput, isType⟩ := documents.parameters parameter member
    obtain ⟨expression, mapped⟩ := documents.accepted input isInput
    exact ⟨namesPlain _ isName, isType ▸ TypeExpression.isPlain_type mapped⟩
  · intro output member
    rw [documents.outputs] at member
    obtain ⟨expression, mapped⟩ := documents.results output member
    exact TypeExpression.isPlain_type mapped

/-- The documentation of a method of an accepted function is written between quotes.  It
stays between them exactly if the method is a remote one or the names of the results do,
and where it does it is read up to the quotes behind it. -/
theorem staysQuoted_documented_of_bind
    {binder after : FunctionBinder}
    {function : FunctionEntry}
    {binding : FunctionBinding}
    {logs : List LogRecord}
    (accepted : binder.bind function = (.ok binding, after, logs))
    (nameIsIdentifier : Names.isSolidityIdentifier function.name = true)
    (inputsNamed :
      ∀ input ∈ function.inputs,
        input.name = [] ∨ Names.isSolidityIdentifier input.name = true)
    (kind : MethodKind) :
    Source.documentation binding kind =
        Source.indentation ++ Text.tripleQuotes ++ Source.documented binding kind ++
          Text.tripleQuotes ++ "\n" ∧
      ((Source.documented binding kind).StaysQuoted ↔
        (kind = .localCall → ∀ output ∈ function.outputs, output.name.StaysQuoted)) ∧
        ((Source.documented binding kind).StaysQuoted →
          (∀ fuel rest,
            Source.checkQuotedLine (fuel + 1 + (Source.documented binding kind).length) true
                (Source.documented binding kind ++ (Text.tripleQuotes ++ rest)) =
              Source.checkQuotedLine fuel false rest) ∧
            Source.checkQuotedLine ((Source.documentation binding kind).length + 1) false
                (Source.documentation binding kind) =
              .ok ()) := by
  obtain ⟨types, names, documents⟩ := documents_of_bind accepted
  have namePlain := Names.isPlain_of_isSolidityIdentifier nameIsIdentifier
  have inputsPlain : ∀ input ∈ function.inputs, input.name.IsPlain := by
    intro input isInput
    rcases inputsNamed input isInput with unnamed | isIdentifier
    · rw [unnamed]
      exact nofun
    · exact Names.isPlain_of_isSolidityIdentifier isIdentifier
  obtain ⟨signaturePlain, parametersPlain, typesPlain⟩ :=
    isPlain_of_documents documents namePlain inputsPlain
  rw [← documents.outputs]
  exact ⟨Source.documentation_eq binding kind,
    Source.staysQuoted_documented_iff signaturePlain parametersPlain typesPlain kind,
    fun stays => ⟨Source.checkQuotedLine_documented stays,
      Source.checkQuotedLine_documentation stays⟩⟩

/-- A function whose only result has a name. -/
def namedResultFunction (inputs : List Parameter) (resultName : Text) : FunctionEntry where
  name := "$owner_of"
  inputs := inputs
  outputs := [⟨resultName, "address", none, none⟩]
  constant := false
  payable := false
  stateMutability := none

/-- A name that is two double quotes stays between the quotes. -/
theorem staysQuoted_documented_of_bind_named :
    let function := namedResultFunction [⟨"_id", "uint256", none, none⟩] "\"\""
    Names.isSolidityIdentifier function.name = true ∧
      (∀ input ∈ function.inputs,
        input.name = [] ∨ Names.isSolidityIdentifier input.name = true) ∧
      ∃ binding after logs,
        bind ⟨"C", "_", []⟩ function = (.ok binding, after, logs) ∧
          Source.checkQuotedLine ((Source.documentation binding .localCall).length + 1) false
              (Source.documentation binding .localCall) =
            .ok () := by
  intro function
  have nameIsIdentifier : Names.isSolidityIdentifier function.name = true := by
    decide
  have inputsNamed :
      ∀ input ∈ function.inputs,
        input.name = [] ∨ Names.isSolidityIdentifier input.name = true :=
    List.forall_mem_singleton.mpr (Or.inr (by decide))
  obtain ⟨binding, after, logs, accepted⟩ :
      ∃ binding after logs, bind ⟨"C", "_", []⟩ function = (.ok binding, after, logs) :=
    ⟨_, _, _, rfl⟩
  obtain ⟨-, staysIff, reads⟩ :=
    staysQuoted_documented_of_bind accepted nameIsIdentifier inputsNamed .localCall
  have resultStays : Text.StaysQuoted "\"\"" :=
    ⟨fun stands => absurd stands.length_le (by decide), by decide⟩
  exact ⟨nameIsIdentifier, inputsNamed, binding, after, logs, accepted,
    (reads (staysIff.mpr fun _ => List.forall_mem_singleton.mpr resultStays)).2⟩

/-- A name that is three double quotes ends the documentation, and the quotes that should
end it begin another text, which no quotes end. -/
theorem not_staysQuoted_documented :
    ∃ binding after logs,
      bind ⟨"C", "_", []⟩ (namedResultFunction [] "\"\"\"") = (.ok binding, after, logs) ∧
        ¬ (Source.documented binding .localCall).StaysQuoted ∧
          Source.checkQuotedLine ((Source.documentation binding .localCall).length + 1) false
              (Source.documentation binding .localCall) =
            .error .unreadableModule := by
  obtain ⟨binding, after, logs, accepted, isSignature, noParameters, isResult⟩ :
      ∃ binding after logs,
        bind ⟨"C", "_", []⟩ (namedResultFunction [] "\"\"\"") = (.ok binding, after, logs) ∧
          binding.signature = "$owner_of()" ∧ binding.parameters = [] ∧
            binding.outputs = [⟨"\"\"\"", "address", none, none⟩] :=
    ⟨_, _, _, rfl, rfl, rfl, rfl⟩
  have written :
      Source.documented binding .localCall =
        "\n        Execute $owner_of() as a call.\n\n        Returns:\n" ++
          ("            address \"\"\"\n" ++ Source.indentation) := by
    rw [Source.documented, Source.argumentLines, Source.resultLines, isSignature, noParameters,
      isResult]
    rfl
  refine ⟨binding, after, logs, accepted, fun stays => ?_,
    by rw [Source.documentation_eq, written]; decide +kernel⟩
  have signaturePlain : binding.signature.IsPlain := by
    rw [isSignature]
    exact List.all_eq_true.mp (by decide)
  have typesPlain : ∀ output ∈ binding.outputs, output.type.IsPlain := by
    rw [isResult]
    exact List.forall_mem_singleton.mpr (List.all_eq_true.mp (by decide))
  have parametersPlain :
      ∀ parameter ∈ binding.parameters, parameter.name.IsPlain ∧ parameter.abiType.IsPlain := by
    rw [noParameters]
    exact nofun
  have resultStays := (Source.staysQuoted_documented_iff signaturePlain parametersPlain typesPlain
    .localCall).mp stays rfl
  rw [isResult, List.forall_mem_singleton] at resultStays
  exact resultStays.unclosed List.infix_rfl

end FunctionBinder
end ContractBindings
