import ContractBindings.Proofs.AcceptedTypes
import ContractBindings.Proofs.MethodReading
import ContractBindings.Proofs.ResultTypes

namespace ContractBindings

/-!
# Reading the class of a contract

The class of a contract is read from the lines of its text, method by method.  Main statement:
the class that is read from the text written for a contract is the class of the contract, if
the text passes its checks and all names are identifiers in normal form.
-/

namespace Source

/-- The methods of a class that are written on lines.  The fuel bounds their number. -/
def readMethods? (normal : Text → Text) (className : Text) :
    (fuel : Nat) → List Text → Option (List Method)
  | _, [] => some []
  | 0, _ => none
  | fuel + 1, first => do
      let (method, others) ← readMethod? normal className first
      return method :: (← readMethods? normal className fuel others)

/-- The line with which the class of a contract begins. -/
def classLine (name : Text) : Text :=
  "class " ++ name ++ "(Contract[TLargeInteger]):"

/-- The lines of a class that are the same for all contracts. -/
def registryLines : List Text :=
  [margin 1 ++ "_event_descriptions = event_descriptions", margin 1 ++ "_event_types = event_types"]

/-- The class of a contract that is written on lines.  No method of it may hide a member that
calls use. -/
def readClass? (normal : Text → Text) : List Text → Option ContractClass
  | head :: documentation :: descriptions :: types :: others => do
      let name := (readWord (← Text.dropStart? head "class ")).1
      guard (head = classLine name ∧ isNormalName normal name)
      guard (readTextLine? 1 [] [] 0 documentation).isSome
      guard ([descriptions, types] = registryLines)
      let methods ← readMethods? normal name others.length others
      guard (methods.all fun method => Names.isOwn (Names.memberName name method.name))
      return ⟨name, methods⟩
  | _ => none

end Source

namespace ContractBinding

/-- The methods of the class of a contract are those that are bound for it. -/
theorem methods_toClass
    (contract : ContractBinding) :
    contract.toClass.methods =
      contract.boundMethods.map fun bound => bound.binding.method bound.kind bound.name := by
  rw [toClass, boundMethods, List.map_flatMap]
  refine List.flatMap_congr fun binding _ => ?_
  rw [FunctionBinding.methods, FunctionBinding.boundMethods, List.map_cons, List.map_map]
  rfl

/-- The names of the methods in the class of a contract are pairwise distinct. -/
theorem IsBoundEach.nodup_toClass
    {suffix : Text}
    {contract : ContractBinding}
    (isBound : contract.IsBoundEach suffix) :
    (contract.toClass.methods.map (·.name)).Nodup := by
  rw [methods_toClass, List.map_map]
  exact isBound.names_apart.1

theorem method_mem_toClass
    {contract : ContractBinding}
    {binding : FunctionBinding}
    (isFunction : binding ∈ contract.functions)
    {kind : MethodKind}
    {name : Text}
    (isName : binding.methodName? kind = some name) :
    binding.method kind name ∈ contract.toClass.methods := by
  rw [methods_toClass]
  exact List.mem_map_of_mem (mem_boundMethods_iff.mpr ⟨isFunction, isName⟩ :
    (⟨binding, kind, name⟩ : BoundMethod) ∈ contract.boundMethods)

end ContractBinding

/-!
## Annotations are made of words
-/

namespace CodePoint

/-- Decimal digits of all scripts can stand in identifiers. -/
theorem continuesIdentifier_of_isDecimalDigit
    {c : CodePoint}
    (isDigit : c.isDecimalDigit = true) :
    c.continuesIdentifier = true := by
  rw [isDecimalDigit, decimalDigit?, Option.isSome_map, List.find?_isSome] at isDigit
  obtain ⟨start, isZero, inTen⟩ := isDigit
  simp only [Bool.and_eq_true, decide_eq_true_eq] at inTen
  -- The ten digits of a script lie in one run of what continues identifiers.
  have everyTen :
      (decimalZeros.all fun start => start == 0x30 ||
        Nat.ble 0x80 start &&
          markRuns.any fun run => Nat.ble run.1 start && Nat.ble (start + 9) run.2) = true := by
    decide +kernel
  have ofTen := List.all_eq_true.mp everyTen start isZero
  simp only [Bool.or_eq_true, beq_iff_eq, Bool.and_eq_true, Nat.ble_eq, List.any_eq_true] at ofTen
  rw [continuesIdentifier]
  rcases ofTen with rfl | ⟨notAscii, run, isRun, first, last⟩
  · have isAscii : c.val < 0x80 := by
      omega
    rw [if_pos isAscii]
    simp [isAsciiWord, isAsciiDigit, inTen.1, Nat.le_of_lt_succ inTen.2]
  · have aboveAscii : ¬ c.val < 0x80 := by
      omega
    have inRun : (decide (run.1 ≤ c.val) && decide (c.val ≤ run.2)) = true := by
      simp only [Bool.and_eq_true, decide_eq_true_eq]
      omega
    have isMark : isInRuns markRuns c = true :=
      List.any_eq_true.mpr ⟨run, isRun, inRun⟩
    rw [if_neg aboveAscii, isMark, Bool.or_true]

end CodePoint

namespace Text

theorem isIdentifier_append_digits
    {word digits : Text}
    (isWord : isIdentifier word = true)
    (areDigits : ∀ c ∈ digits, c.isDecimalDigit = true) :
    isIdentifier (word ++ digits) = true := by
  obtain ⟨first, others, rfl, begins, continue_⟩ := isIdentifier_iff.mp isWord
  refine isIdentifier_iff.mpr ⟨first, others ++ digits, rfl, begins, ?_⟩
  exact List.forall_mem_append.mpr ⟨continue_, fun c member =>
    CodePoint.continuesIdentifier_of_isDecimalDigit (areDigits c member)⟩

end Text

namespace TypeExpression

theorem HasWords.listed
    {element : TypeExpression}
    (hasWords : element.HasWords)
    (count : Nat) :
    (TypeExpression.listed element count).HasWords := by
  induction count with
  | zero =>
      exact hasWords
  | succ count inductionHypothesis =>
      exact .list inductionHypothesis

theorem hasWords_integer
    (isUnsigned : Bool)
    (width : Nat) :
    (integer isUnsigned width).HasWords := by
  rw [integer]
  split
  · exact .named (by decide)
  · refine .branded (Text.isIdentifier_append_digits (by cases isUnsigned <;> decide) ?_)
    exact fun c isDigit => (Text.isDigit_of_mem_ofNat isDigit).2

/-- A parameter that is accepted is annotated with words. -/
theorem hasWords_of_ofParameter
    {place : Option Place}
    {marks : Entries}
    {parameter : Parameter}
    {type : TypeExpression}
    (mapped : ofParameter place marks parameter = .ok type) :
    type.HasWords := by
  obtain ⟨base, count, element, -, rfl, isBase⟩ := base_of_ofParameter mapped
  refine HasWords.listed ?_ count
  rcases isBase with ⟨isUnsigned, digits, -, rfl⟩ | found | ⟨-, fields, -, -, rfl⟩
  · exact hasWords_integer isUnsigned (widthOf digits)
  · have stands := standsFor_of_readBase found nofun
    generalize Text.dropLineBreak base = text at stands
    cases stands with
    | fixedBytes _ areDigits =>
        exact .named (Text.isIdentifier_append_digits (by decide) areDigits)
    | _ =>
        exact .named (by decide)
  · exact .record fields

theorem hasWords_of_ofResults
    {place : Option Place}
    {results : List Parameter}
    {type : TypeExpression}
    (mapped : ofResults place results = .ok type) :
    type.HasWords := by
  rcases results with _ | ⟨first, _ | ⟨second, others⟩⟩
  · cases mapped
    exact .named (by decide)
  · exact hasWords_of_ofParameter mapped
  · obtain ⟨types, -, rfl⟩ := record_of_ofResults mapped (by simp)
    exact .record _

end TypeExpression

/-!
## What passes its checks can be read
-/

namespace Text

/-- An identifier in the normal form in which the language compares names. -/
structure IsNormalName (normal : Text → Text) (name : Text) : Prop where
  isIdentifier : Text.isIdentifier name = true
  isNormal : normal name = name

end Text

namespace ContractBinding

/-- All names of a contract are identifiers in normal form: that of its class, those of its
methods and those of their parameters. -/
structure HasNormalNames (normal : Text → Text) (contract : ContractBinding) : Prop where
  ofClass : Text.IsNormalName normal contract.className
  ofMethods : ∀ bound ∈ contract.boundMethods, Text.IsNormalName normal bound.name
  ofParameters :
    ∀ binding ∈ contract.functions, ∀ parameter ∈ binding.parameters,
      Text.IsNormalName normal parameter.name

end ContractBinding

namespace Source

theorem readName_of_isIdentifier
    {isBlank : CodePoint → Bool}
    (noBlanks : ∀ c : CodePoint, c.continuesIdentifier = true → isBlank c = false)
    {name : Text}
    (isName : Text.isIdentifier name = true) :
    readName isBlank name = name := by
  obtain ⟨_, _, -, -, continue_⟩ := Text.isIdentifier_iff.mp isName
  have keeps :
      ∀ text : Text, (∀ c ∈ text, c ∈ name) → text.dropWhile isBlank = text := by
    intro text inName
    cases text with
    | nil =>
        rfl
    | cons c text =>
        have noBlank := noBlanks c (continue_ c (inName c List.mem_cons_self))
        exact List.dropWhile_cons_of_neg (by simp [noBlank])
  rw [readName, keeps name fun _ member => member, Text.trimEnd,
    keeps name.reverse fun _ member => List.mem_reverse.mp member, List.reverse_reverse]

theorem isInnerBlank_of_continues
    {c : CodePoint}
    (continue_ : c.continuesIdentifier = true) :
    isInnerBlank c = false := by
  have noBreak : c ≠ '\n' ∧ c ≠ '\r' := by
    constructor
    all_goals
      rintro rfl
      exact absurd continue_ (by decide)
  simp [isInnerBlank, isLineBlank_of_continues continue_, noBreak.1, noBreak.2]

/-- A normal name that passes its check is read as it is written. -/
theorem isNormalName_of_checkName
    {normal : Text → Text}
    {isBlank : CodePoint → Bool}
    (noBlanks : ∀ c : CodePoint, c.continuesIdentifier = true → isBlank c = false)
    {name : Text}
    (ofName : Text.IsNormalName normal name)
    (checked : checkName (readName isBlank name) = .ok ()) :
    isNormalName normal name = true := by
  rw [readName_of_isIdentifier noBlanks ofName.isIdentifier, checkName] at checked
  split at checked
  case isTrue isGivable =>
    simp [isNormalName, isGivable, ofName.isNormal]
  case isFalse =>
    cases checked

/-- Inside of a class a free name of a parameter stands for none that a method uses. -/
theorem memberName_ne_of_isFreeParameter
    {name : Text}
    (free : Names.IsFreeParameter [] name)
    (className : Text) :
    Names.memberName className name ≠ "bytes" ∧
      Names.memberName className name ≠ "ReturnShape" := by
  have areReserved :
      Text.ofString "bytes" ∈ Names.moduleNames ∧
        Text.ofString "ReturnShape" ∈ Names.moduleNames := by
    decide +kernel
  rcases Names.memberName_cases className name with isSame | ⟨-, first, others, -, kept⟩
  · rw [isSame]
    constructor
    · rintro rfl
      exact free.notReserved areReserved.1
    · rintro rfl
      exact free.notReserved areReserved.2
  · rw [kept]
    exact ⟨nofun, nofun⟩

/-- A method that is bound for a contract can be read if it passes its check. -/
theorem isReadable_of_passesCheck
    {suffix : Text}
    {contract : ContractBinding}
    (isBound : contract.IsBoundEach suffix)
    {normal : Text → Text}
    (hasNames : contract.HasNormalNames normal)
    {bound : BoundMethod}
    (member : bound ∈ contract.boundMethods)
    (passes : PassesCheck contract.className bound.binding bound.kind bound.name) :
    IsReadable normal contract.className bound.binding bound.kind bound.name := by
  have isFunction := (ContractBinding.mem_boundMethods_iff.mp member).1
  obtain ⟨binder, function, after, logs, accepted⟩ := isBound.exists_bind _ isFunction
  obtain ⟨types, ofBinding⟩ := FunctionBinder.bound_of_bind accepted
  have areNormal := hasNames.ofParameters _ isFunction
  have sameNames : parameterNames bound.binding = bound.binding.parameters.map (·.name) :=
    List.map_congr_left fun parameter isParameter =>
      readName_of_isIdentifier (fun _ => isInnerBlank_of_continues)
        (areNormal parameter isParameter).isIdentifier
  have nodup := passes.nodup
  rw [sameNames] at nodup
  refine
    { isName := isNormalName_of_checkName (fun _ => isLineBlank_of_continues)
        (hasNames.ofMethods bound member) passes.ofName
      areNames := fun parameter isParameter =>
        isNormalName_of_checkName (fun _ => isInnerBlank_of_continues)
          (areNormal parameter isParameter) (passes.ofParameters parameter isParameter)
      haveWords := fun parameter isParameter => ?_
      returns := TypeExpression.hasWords_of_ofResults ofBinding.returns
      isApart := ?_
      documented := passes.documented
      described := passes.described }
  · obtain ⟨input, -, mapped⟩ := ofBinding.annotated parameter isParameter
    exact TypeExpression.hasWords_of_ofParameter mapped
  · have keepApart :
        ∀ parameter ∈ bound.binding.parameters,
          Names.memberName contract.className parameter.name ≠ "bytes" ∧
            Names.memberName contract.className parameter.name ≠ "ReturnShape" :=
      fun parameter isParameter => memberName_ne_of_isFreeParameter
        (FunctionBinder.isFreeParameter_of_bind accepted parameter isParameter) _
    rw [List.map_map] at nodup
    simpa [MethodHead.isApart] using ⟨nodup, keepApart⟩

/-- All methods of a contract that passes its check can be read. -/
theorem isReadable_of_checkContract
    {suffix : Text}
    {contract : ContractBinding}
    (isBound : contract.IsBoundEach suffix)
    {normal : Text → Text}
    (hasNames : contract.HasNormalNames normal)
    (checked : checkContract contract = .ok ()) :
    ∀ bound ∈ contract.boundMethods,
      IsReadable normal contract.className bound.binding bound.kind bound.name := by
  have ofMethods := (checkContract_eq_ok_iff.mp checked).2
  rw [readName_of_isIdentifier (fun _ => isLineBlank_of_continues) hasNames.ofClass.isIdentifier]
    at ofMethods
  exact fun bound member =>
    isReadable_of_passesCheck isBound hasNames member (ofMethods bound member)

/-!
## The lines of a class
-/

/-- The lines of the class of a contract. -/
def classLines (contract : ContractBinding) : List Text :=
  [classLine contract.className,
      margin 1 ++ (contract.globalName ++ ":" ++ contract.contractName).quoted] ++
    registryLines ++
    contract.boundMethods.flatMap fun bound => methodLines bound.binding bound.kind bound.name

theorem methods_eq
    (binding : FunctionBinding) :
    methods binding =
      binding.boundMethods.flatMap fun bound => method bound.binding bound.kind bound.name := by
  rw [methods, FunctionBinding.boundMethods, List.flatMap_cons]
  cases binding.remoteMethod with
  | none =>
      rfl
  | some name =>
      simp only [Option.toList_some, List.map_cons, List.map_nil, List.flatMap_cons,
        List.flatMap_nil, List.append_nil]

theorem closed_classLine
    {name : Text}
    (isName : Text.isIdentifier name = true) :
    Closed (classLine name) :=
  (Closed.append (by rfl) (closed_word isName)).append (by rfl)

/-- The name of a class is told by the line with which it begins. -/
theorem exists_readWord_classLine
    {name : Text}
    (isName : Text.isIdentifier name = true) :
    ∃ rest, Text.dropStart? (classLine name) "class " = some rest ∧ (readWord rest).1 = name := by
  have ends : EndsName ("(Contract[TLargeInteger]):" : Text) := ⟨'(', _, rfl, by decide⟩
  refine ⟨name ++ "(Contract[TLargeInteger]):", ?_, ?_⟩
  · rw [classLine, List.append_assoc, Text.dropStart?_append]
  · rw [readWord_append isName (Or.inr ends)]

theorem codeLines_contractClass
    {normal : Text → Text}
    {contract : ContractBinding}
    (isName : Text.isIdentifier contract.className = true)
    (areReadable :
      ∀ bound ∈ contract.boundMethods,
        IsReadable normal contract.className bound.binding bound.kind bound.name)
    (rest : Text) :
    codeLines (contractClass contract ++ rest) = classLines contract ++ codeLines rest := by
  have isText :
      contractClass contract ++ rest =
        List.replicate 1 (CodePoint.ofChar '\n') ++
          (line 0 (classLine contract.className) 1 ++
            (line 1 (contract.globalName ++ ":" ++ contract.contractName).quoted 2 ++
              (line 1 "_event_descriptions = event_descriptions" 1 ++
                (line 1 "_event_types = event_types" 2 ++
                  (contract.functions.flatMap methods ++ rest))))) := by
    simp only [contractClass, List.append_assoc]
    rfl
  have ofMethods :
      codeLines (contract.functions.flatMap methods ++ rest) =
        (contract.boundMethods.flatMap fun bound =>
            methodLines bound.binding bound.kind bound.name) ++
          codeLines rest := by
    rw [funext methods_eq, ← List.flatMap_assoc]
    exact codeLines_flatMap
      (fun bound member more => codeLines_method (areReadable bound member) more) rest
  rw [isText, codeLines_replicate,
    codeLines_line (closed_classLine isName) (List.append_ne_nil_of_right_ne_nil _ (by decide)),
    codeLines_line (closed_quoted _) (List.cons_ne_nil _ _), codeLines_line (by rfl) (by decide),
    codeLines_line (by rfl) (by decide), ofMethods]
  rfl

/-!
## A class is read
-/

/-- Methods are read from their lines one after another. -/
theorem readMethods?_flatMap
    {normal : Text → Text}
    {className : Text}
    {items : List α}
    {linesOf : α → List Text}
    {methodOf : α → Method}
    (each :
      ∀ item ∈ items, ∀ rest,
        readMethod? normal className (linesOf item ++ rest) = some (methodOf item, rest))
    {fuel : Nat}
    (enough : items.length ≤ fuel) :
    readMethods? normal className fuel (items.flatMap linesOf) = some (items.map methodOf) := by
  induction items generalizing fuel with
  | nil =>
      cases fuel <;> rfl
  | cons item items inductionHypothesis =>
      rw [List.forall_mem_cons] at each
      obtain ⟨fuel, rfl⟩ := Nat.exists_eq_add_one_of_ne_zero (Nat.ne_zero_of_lt enough)
      have ofOthers := inductionHypothesis each.2 (Nat.le_of_succ_le_succ enough)
      have ofFirst := each.1 (items.flatMap linesOf)
      cases areLines : linesOf item ++ items.flatMap linesOf with
      | nil =>
          rw [areLines] at ofFirst
          cases ofFirst
      | cons first more =>
          rw [areLines] at ofFirst
          rw [List.flatMap_cons, areLines, readMethods?, ofFirst]
          · simp only [Option.bind_eq_bind, Option.bind_some, ofOthers, Option.pure_def,
              List.map_cons]
          · exact nofun

theorem length_le_length_flatMap_methodLines
    (bounds : List BoundMethod) :
    bounds.length ≤
      (bounds.flatMap fun bound => methodLines bound.binding bound.kind bound.name).length := by
  induction bounds with
  | nil =>
      exact Nat.zero_le _
  | cons bound bounds inductionHypothesis =>
      rw [List.flatMap_cons, List.length_append, methodLines, List.length_append, List.length_cons,
        List.length_cons]
      omega

/-- What is read from the text of the class of a contract is the class of the contract. -/
theorem readClass?_contractClass
    {suffix : Text}
    {contract : ContractBinding}
    (isBound : contract.IsBoundEach suffix)
    {normal : Text → Text}
    (hasNames : contract.HasNormalNames normal)
    (checked : checkContract contract = .ok ()) :
    readClass? normal (codeLines (contractClass contract)) = some contract.toClass := by
  have isName := hasNames.ofClass.isIdentifier
  have isNormal := isNormalName_of_checkName (fun _ => isLineBlank_of_continues) hasNames.ofClass
    (checkContract_eq_ok_iff.mp checked).1
  have areReadable := isReadable_of_checkContract isBound hasNames checked
  have areLines : codeLines (contractClass contract) = classLines contract := by
    have ofText := codeLines_contractClass isName areReadable []
    have noLines : codeLines [] = [] := rfl
    rwa [List.append_nil, noLines, List.append_nil] at ofText
  have areMethods := readMethods?_flatMap
    (fun bound member rest => readMethod?_methodLines (areReadable bound member) rest)
    (length_le_length_flatMap_methodLines contract.boundMethods)
  rw [← contract.methods_toClass] at areMethods
  have ofDocumentation :
      (readTextLine? 1 [] [] 0
          (margin 1 ++ (contract.globalName ++ ":" ++ contract.contractName).quoted)).isSome =
        true := by
    have ofLine :=
      readLine?_append 1 [] [] 0 (contract.globalName ++ ":" ++ contract.contractName).quoted
    rw [Literal.read?_quoted _ (by decide), List.nil_append, List.append_nil] at ofLine
    rw [readTextLine?, ofLine]
    rfl
  have areOwn :
      (contract.toClass.methods.all fun method =>
        Names.isOwn (Names.memberName contract.className method.name)) = true := by
    rw [contract.methods_toClass, List.all_map, List.all_eq_true]
    exact fun bound member => Names.isOwn_memberName (isBound.names_apart.2 bound member) _
  obtain ⟨rest, isRest, isWord⟩ := exists_readWord_classLine isName
  rw [areLines, classLines, List.append_assoc, readClass?.eq_def]
  simp only [registryLines, List.cons_append, List.nil_append]
  simp only [isRest, Option.bind_eq_bind, Option.bind_some, isWord, isNormal, ofDocumentation,
    guard_true, areMethods, areOwn, and_self, Option.pure_def]
  rfl

end Source

end ContractBindings
