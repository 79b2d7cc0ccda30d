import ContractBindings.Call.Contract
import ContractBindings.Proofs.ModuleChecks
import ContractBindings.Proofs.OuterLines

namespace ContractBindings

/-!
# Reading a method

A method is read from the lines of its text: its head, its documentation, and the call that it
returns, line by line.  Names are read as they are written, so they have to be identifiers in
the normal form in which the language compares them.  Main statement: what is read from the
text of a method is the method.
-/

namespace Source

/-!
## Names and annotations
-/

/-- Whether a name is read as it is written: it can be given to something, and it is in the
normal form in which names are compared. -/
def isNormalName (normal : Text → Text) (name : Text) : Bool :=
  isGivable name && normal name = name

/-- The word that a text begins with, and what follows it. -/
def readWord (t : Text) : Text × Text :=
  (t.takeWhile CodePoint.continuesIdentifier, t.dropWhile CodePoint.continuesIdentifier)

/-- Whether a text is a word, in brackets behind which there may be another such text.  The
fuel bounds the brackets. -/
def isTypeTextIn : (fuel : Nat) → (t : Text) → Bool
  | 0, _ => false
  | fuel + 1, t =>
      let (word, rest) := readWord t
      Text.isIdentifier word &&
        match rest with
        | [] => true
        | c :: inner =>
            c = '[' &&
              match Text.dropEnd? inner "]" with
              | some inner => isTypeTextIn fuel inner
              | none => false

/-- Whether a text is an annotation.  Annotations are not evaluated. -/
def isTypeText (t : Text) : Bool :=
  isTypeTextIn (t.length + 1) t

/-- What an annotation is written with. -/
def isTypeTextPart (c : CodePoint) : Bool :=
  c.continuesIdentifier || c = '[' || c = ']'

/-!
## The head of a method
-/

/-- What the head of a method tells. -/
structure MethodHead where
  name : Text
  parameters : List Text
  payable : Bool

/-- The name of a parameter with an annotation, and what follows them. -/
def readParameter? (normal : Text → Text) (t : Text) : Option (Text × Text) := do
  let (name, rest) := readWord (← Text.dropStart? t ", ")
  guard (isNormalName normal name)
  let rest ← Text.dropStart? rest ": "
  guard (isTypeText (rest.takeWhile isTypeTextPart))
  return (name, rest.dropWhile isTypeTextPart)

/-- The names of parameters, as far as there are some, and what follows them.  The fuel bounds
their number. -/
def readParameters (normal : Text → Text) : (fuel : Nat) → (t : Text) → List Text × Text
  | 0, t => ([], t)
  | fuel + 1, t =>
      match readParameter? normal t with
      | none => ([], t)
      | some (name, rest) =>
          let (names, behind) := readParameters normal fuel rest
          (name :: names, behind)

/-- The parameter for a payment. -/
def paymentParameter : Text :=
  ", *, attached_value: Optional[UInt256[TLargeInteger]] = None"

/-- The head of a method that is written on a line. -/
def readHead? (normal : Text → Text) (t : Text) : Option MethodHead := do
  let (name, rest) := readWord (← Text.dropStart? t (margin 1 ++ "async def "))
  guard (isNormalName normal name)
  let rest ← Text.dropStart? rest "(self"
  let (parameters, behind) := readParameters normal rest.length rest
  let afterPayment := Text.dropStart? behind paymentParameter
  let returned ← Text.dropStart? (afterPayment.getD behind) ") -> "
  guard (isTypeText (← Text.dropEnd? returned ":"))
  return ⟨name, parameters, afterPayment.isSome⟩

/-- Whether the parameters of a method in a class are apart from one another and from the names
that the method uses. -/
def MethodHead.isApart (className : Text) (head : MethodHead) : Bool :=
  let kept := head.parameters.map (Names.memberName className)
  (withShared kept head.payable).Nodup &&
    kept.all fun name => name ≠ "bytes" && name ≠ "ReturnShape"

/-!
## The call of a method
-/

/-- Whether a line is nothing but documentation. -/
def isDocumentation (t : Text) : Bool :=
  Text.startsWith t (margin 2 ++ Text.tripleQuotes) &&
    (checkQuotedLine (t.length + 2) false (t ++ "\n")).toOption.isSome

/-- The descriptions of parameters that are written on a line. -/
def readDescriptions? (t : Text) : Option (List Description) :=
  match readLine? 3 [] "," 1 t with
  | some (.list vs) => some (Description.ofValues vs)
  | _ => none

/-- The line with the shape of results. -/
def shapeLine (shape : ReturnShape) : Text :=
  let word : Text := match shape with
    | .void => "VOID"
    | .single => "SINGLE"
    | .record => "RECORD"
  margin 3 ++ ("ReturnShape." ++ word ++ ",")

def readShape? (t : Text) : Option ReturnShape :=
  ([.void, .single, .record] : List ReturnShape).find? fun shape => t = shapeLine shape

/-- The line with which a call begins. -/
def callLine (callee : Text) : Text :=
  margin 2 ++ ("return await self." ++ callee ++ "(")

/-- What a method does behind its arguments, from the line with which its call begins and the
lines behind the descriptions of its parameters, and the lines that follow. -/
def readEnding? (arguments opening : Text) : List Text → Option (MethodEnding × List Text)
  | first :: second :: rest =>
      if opening = callLine "_local_call" then
        match rest with
        | third :: rest => do
            guard (second = arguments)
            return (.localCall (← readDescriptions? first) (← readShape? third), rest)
        | [] => none
      else do
        guard (opening = callLine "_remote_call")
        guard (first = arguments)
        return (.remoteCall (← readTextLine? 3 [] "," 1 second), rest)
  | _ => none

/-- The lines behind a call, which hands a payment on if there can be one. -/
def readClosing? (payable : Bool) : List Text → Option (List Text)
  | [] => none
  | first :: rest =>
      if payable then
        match rest with
        | [] => none
        | second :: rest => do
            guard (first = margin 3 ++ "attached_value," ∧ second = margin 2 ++ ")")
            return rest
      else do
        guard (first = margin 2 ++ ")")
        return rest

/-- A method in a class that is written on lines, and the lines that follow. -/
def readMethod? (normal : Text → Text) (className : Text) :
    List Text → Option (Method × List Text)
  | head :: documentation :: opening :: selector :: inputs :: others => do
      let head ← readHead? normal head
      guard (head.isApart className)
      guard (isDocumentation documentation)
      let selector ← Octets.ofHex? (← readTextLine? 3 "bytes.fromhex(" ")," 2 selector)
      let inputs ← readDescriptions? inputs
      let arguments := margin 3 ++ ("[" ++ Text.join ", " head.parameters ++ "],")
      let (ending, others) ← readEnding? arguments opening others
      let others ← readClosing? head.payable others
      return (⟨head.name, head.parameters, head.payable, selector, inputs, ending⟩, others)
  | _ => none

end Source

/-!
## What is written as an annotation
-/

namespace TypeExpression

/-- A type expression whose names are words. -/
inductive HasWords : TypeExpression → Prop where
  | named {name : Text} : Text.isIdentifier name = true → HasWords (.named name)
  | branded {name : Text} : Text.isIdentifier name = true → HasWords (.branded name)
  | list {element : TypeExpression} : HasWords element → HasWords (.list element)
  | record (fields : RecordFields) : HasWords (.record fields)

end TypeExpression

namespace Source

theorem readWord_append
    {word rest : Text}
    (isWord : Text.isIdentifier word = true)
    (ends : rest = [] ∨ EndsName rest) :
    readWord (word ++ rest) = (word, rest) := by
  obtain ⟨_, _, -, -, continue_⟩ := Text.isIdentifier_iff.mp isWord
  rw [readWord, List.takeWhile_append_of_pos continue_, List.dropWhile_append_of_pos continue_]
  rcases ends with rfl | ⟨next, more, rfl, stops⟩
  · rw [List.takeWhile_nil, List.dropWhile_nil, List.append_nil]
  · rw [List.takeWhile_cons_of_neg (by simp [stops]), List.dropWhile_cons_of_neg (by simp [stops]),
      List.append_nil]

theorem isTypeTextIn_word
    {word : Text}
    (isWord : Text.isIdentifier word = true)
    (fuel : Nat) :
    isTypeTextIn (fuel + 1) word = true := by
  have ofWord := readWord_append isWord (Or.inl rfl)
  rw [List.append_nil] at ofWord
  rw [isTypeTextIn, ofWord]
  simp only [isWord, Bool.and_true]

/-- An annotation in brackets behind a word is an annotation. -/
theorem isTypeTextIn_brackets
    {word inner : Text}
    (isWord : Text.isIdentifier word = true)
    {fuel : Nat}
    (ofInner : isTypeTextIn fuel inner = true) :
    isTypeTextIn (fuel + 1) (word ++ ("[" ++ (inner ++ "]"))) = true := by
  have ends : EndsName ("[" ++ (inner ++ "]")) := ⟨'[', inner ++ "]", rfl, by decide⟩
  have isBracket : ("[" ++ (inner ++ "]") : Text) = CodePoint.ofChar '[' :: (inner ++ "]") := rfl
  rw [isTypeTextIn, readWord_append isWord (Or.inr ends), isBracket]
  simp only [isWord, Text.dropEnd?_append, ofInner, decide_true, Bool.and_true]

/-- The text of a type whose names are words is an annotation. -/
theorem isTypeTextIn_render
    {type : TypeExpression}
    (hasWords : type.HasWords)
    {fuel : Nat}
    (enough : type.brackets < fuel) :
    isTypeTextIn fuel type.render = true := by
  induction hasWords generalizing fuel with
  | named isWord =>
      obtain ⟨fuel, rfl⟩ := Nat.exists_eq_add_one_of_ne_zero (Nat.ne_zero_of_lt enough)
      exact isTypeTextIn_word isWord fuel
  | branded isWord =>
      obtain ⟨fuel, rfl⟩ : ∃ more, fuel = more + 2 :=
        ⟨fuel - 2, by rw [TypeExpression.brackets] at enough; omega⟩
      have isInteger : Text.isIdentifier "TLargeInteger" = true := by
        decide
      exact isTypeTextIn_brackets isWord (isTypeTextIn_word isInteger fuel)
  | @list element _ inductionHypothesis =>
      obtain ⟨fuel, rfl⟩ := Nat.exists_eq_add_one_of_ne_zero (Nat.ne_zero_of_lt enough)
      rw [TypeExpression.brackets, Nat.add_lt_add_iff_right] at enough
      have isList : Text.isIdentifier "List" = true := by
        decide
      have ofElement := isTypeTextIn_brackets isList (inductionHypothesis enough)
      rw [TypeExpression.render, List.append_assoc]
      exact ofElement
  | record fields =>
      obtain ⟨fuel, rfl⟩ := Nat.exists_eq_add_one_of_ne_zero (Nat.ne_zero_of_lt enough)
      exact isTypeTextIn_word (RecordFields.isIdentifier_name fields).1 fuel

theorem brackets_le_length_render
    {type : TypeExpression}
    (hasWords : type.HasWords) :
    type.brackets ≤ type.render.length := by
  induction hasWords with
  | named =>
      exact Nat.zero_le _
  | branded =>
      have inBrackets : 1 ≤ (Text.ofString "[TLargeInteger]").length := by
        decide
      rw [TypeExpression.brackets, TypeExpression.render, List.length_append]
      omega
  | list _ inductionHypothesis =>
      have opening : 1 ≤ (Text.ofString "List[").length := by
        decide
      rw [TypeExpression.brackets, TypeExpression.render, List.length_append, List.length_append]
      omega
  | record =>
      exact Nat.zero_le _

theorem isTypeText_render
    {type : TypeExpression}
    (hasWords : type.HasWords) :
    isTypeText type.render = true :=
  isTypeTextIn_render hasWords (Nat.lt_succ_of_le (brackets_le_length_render hasWords))

theorem isTypeTextPart_of_mem_word
    {word : Text}
    (isWord : Text.isIdentifier word = true) :
    ∀ c ∈ word, isTypeTextPart c = true := by
  obtain ⟨_, _, -, -, continue_⟩ := Text.isIdentifier_iff.mp isWord
  intro c member
  rw [isTypeTextPart, continue_ c member, Bool.true_or, Bool.true_or]

theorem isTypeTextPart_of_mem_render
    {type : TypeExpression}
    (hasWords : type.HasWords) :
    ∀ c ∈ type.render, isTypeTextPart c = true := by
  induction hasWords with
  | named isWord =>
      exact isTypeTextPart_of_mem_word isWord
  | branded isWord =>
      have behind : ∀ c ∈ Text.ofString "[TLargeInteger]", isTypeTextPart c = true :=
        List.all_eq_true.mp (by decide)
      exact List.forall_mem_append.mpr ⟨isTypeTextPart_of_mem_word isWord, behind⟩
  | list _ inductionHypothesis =>
      have front : ∀ c ∈ Text.ofString "List[", isTypeTextPart c = true :=
        List.all_eq_true.mp (by decide)
      have behind : ∀ c ∈ Text.ofString "]", isTypeTextPart c = true :=
        List.all_eq_true.mp (by decide)
      exact List.forall_mem_append.mpr
        ⟨List.forall_mem_append.mpr ⟨front, inductionHypothesis⟩, behind⟩
  | record fields =>
      exact isTypeTextPart_of_mem_word (RecordFields.isIdentifier_name fields).1

/-- What annotations are written with is neither a quote nor a line break. -/
theorem isBare_of_isTypeTextPart
    {c : CodePoint}
    (isPart : isTypeTextPart c = true) :
    isBare c = true := by
  refine isBare_iff.mpr ⟨?_, ?_, ?_⟩
  all_goals
    rintro rfl
    exact absurd isPart (by decide)

/-!
## The head of a method is read
-/

/-- What follows a parameter and is no part of its annotation. -/
def EndsTypeText (rest : Text) : Prop :=
  ∃ next more, rest = next :: more ∧ isTypeTextPart next = false

theorem isIdentifier_of_isNormalName
    {normal : Text → Text}
    {name : Text}
    (isNormal : isNormalName normal name = true) :
    Text.isIdentifier name = true := by
  simp only [isNormalName, isGivable, Bool.and_eq_true] at isNormal
  exact isNormal.1.1.1

theorem readParameter?_append
    {normal : Text → Text}
    {parameter : MethodParameter}
    (isNormal : isNormalName normal parameter.name = true)
    (hasWords : parameter.expression.HasWords)
    {rest : Text}
    (ends : EndsTypeText rest) :
    readParameter? normal
        (", " ++ parameter.name ++ ": " ++ parameter.expression.render ++ rest) =
      some (parameter.name, rest) := by
  have isName := isIdentifier_of_isNormalName isNormal
  have areParts := isTypeTextPart_of_mem_render hasWords
  have endsName : EndsName (": " ++ (parameter.expression.render ++ rest)) :=
    ⟨':', _, rfl, by decide⟩
  have ofAnnotation :
      (parameter.expression.render ++ rest).takeWhile isTypeTextPart =
          parameter.expression.render ∧
        (parameter.expression.render ++ rest).dropWhile isTypeTextPart = rest := by
    obtain ⟨next, more, rfl, stops⟩ := ends
    rw [List.takeWhile_append_of_pos areParts, List.dropWhile_append_of_pos areParts,
      List.takeWhile_cons_of_neg (by simp [stops]), List.dropWhile_cons_of_neg (by simp [stops]),
      List.append_nil]
    exact ⟨rfl, rfl⟩
  have isText :
      ", " ++ parameter.name ++ ": " ++ parameter.expression.render ++ rest =
        ", " ++ (parameter.name ++ (": " ++ (parameter.expression.render ++ rest))) := by
    simp only [List.append_assoc]
  rw [isText, readParameter?]
  simp only [Text.dropStart?_append, Option.bind_eq_bind, Option.bind_some,
    readWord_append isName (Or.inr endsName), isNormal, guard_true, ofAnnotation.1,
    ofAnnotation.2, isTypeText_render hasWords, Option.pure_def]

/-- A parameter in the head of a method. -/
def annotated (parameter : MethodParameter) : Text :=
  ", " ++ parameter.name ++ ": " ++ parameter.expression.render

theorem endsTypeText_flatMap
    (parameters : List MethodParameter)
    {behind : Text}
    (ends : EndsTypeText behind) :
    EndsTypeText (parameters.flatMap annotated ++ behind) := by
  cases parameters with
  | nil =>
      exact ends
  | cons parameter parameters =>
      exact ⟨',', _, rfl, by decide⟩

/-- The names of parameters are read up to what is no parameter. -/
theorem readParameters_flatMap
    {normal : Text → Text}
    {parameters : List MethodParameter}
    (areNames : ∀ parameter ∈ parameters, isNormalName normal parameter.name = true)
    (haveWords : ∀ parameter ∈ parameters, parameter.expression.HasWords)
    {behind : Text}
    (ends : EndsTypeText behind)
    (notParameter : readParameter? normal behind = none)
    {fuel : Nat}
    (enough : parameters.length ≤ fuel) :
    readParameters normal fuel (parameters.flatMap annotated ++ behind) =
      (parameters.map (·.name), behind) := by
  induction parameters generalizing fuel with
  | nil =>
      rw [List.flatMap_nil, List.nil_append]
      cases fuel with
      | zero => rfl
      | succ fuel => rw [readParameters, notParameter, List.map_nil]
  | cons parameter parameters inductionHypothesis =>
      rw [List.forall_mem_cons] at areNames haveWords
      obtain ⟨fuel, rfl⟩ := Nat.exists_eq_add_of_le' enough
      have ofFirst := readParameter?_append areNames.1 haveWords.1
        (endsTypeText_flatMap parameters ends)
      have ofOthers := @inductionHypothesis areNames.2 haveWords.2 (fuel + parameters.length)
        (Nat.le_add_left _ _)
      rw [← annotated] at ofFirst
      rw [List.flatMap_cons, List.append_assoc, List.length_cons, ← Nat.add_assoc, readParameters,
        ofFirst]
      simp only [ofOthers, List.map_cons]

theorem length_le_length_flatMap_annotated
    (parameters : List MethodParameter)
    (behind : Text) :
    parameters.length ≤ (parameters.flatMap annotated ++ behind).length := by
  induction parameters with
  | nil =>
      exact Nat.zero_le _
  | cons parameter parameters inductionHypothesis =>
      have comma : 1 ≤ (Text.ofString ", ").length := by
        decide
      simp only [List.flatMap_cons, annotated, List.length_append, List.length_cons]
        at inductionHypothesis ⊢
      omega

/-- The parameter for a payment, which a method has that takes one. -/
def paymentText (payable : Bool) : Text :=
  if payable then paymentParameter else []

theorem parameterList_eq
    (binding : FunctionBinding) :
    parameterList binding = binding.parameters.flatMap annotated ++ paymentText binding.payable :=
  rfl

/-- What a method is annotated to return. -/
def returnText (binding : FunctionBinding) : MethodKind → Text
  | .localCall => binding.returnType.render
  | .remoteCall => "List[Event[TLargeInteger]]"

/-- The line with the head of a method. -/
def headText (binding : FunctionBinding) (kind : MethodKind) (name : Text) : Text :=
  "async def " ++ name ++ "(self" ++ parameterList binding ++ ") -> " ++ returnText binding kind ++
    ":"

/-- What the text of a method has to be like to be read. -/
structure IsReadable (normal : Text → Text) (className : Text) (binding : FunctionBinding)
    (kind : MethodKind) (name : Text) : Prop where
  isName : isNormalName normal name = true
  areNames : ∀ parameter ∈ binding.parameters, isNormalName normal parameter.name = true
  haveWords : ∀ parameter ∈ binding.parameters, parameter.expression.HasWords
  returns : binding.returnType.HasWords
  isApart :
    (⟨name, binding.parameters.map (·.name), binding.payable⟩ : MethodHead).isApart className =
      true
  documented :
    checkQuotedLine ((documentation binding kind).length + 1) false (documentation binding kind) =
      .ok ()
  described : checkDescriptions binding kind = .ok ()

theorem isTypeText_returnText
    {binding : FunctionBinding}
    (returns : binding.returnType.HasWords)
    (kind : MethodKind) :
    isTypeText (returnText binding kind) = true := by
  cases kind with
  | localCall =>
      exact isTypeText_render returns
  | remoteCall =>
      rw [returnText]
      decide +kernel

/-- What follows the parameters in the head of a method. -/
def behindParameters (payable : Bool) (returned : Text) : Text :=
  paymentText payable ++ (") -> " ++ (returned ++ ":"))

theorem endsTypeText_behindParameters
    (payable : Bool)
    (returned : Text) :
    EndsTypeText (behindParameters payable returned) := by
  cases payable with
  | true => exact ⟨',', _, rfl, by decide⟩
  | false => exact ⟨')', _, rfl, by decide⟩

theorem readParameter?_behindParameters
    (normal : Text → Text)
    (payable : Bool)
    (returned : Text) :
    readParameter? normal (behindParameters payable returned) = none := by
  cases payable <;> rfl

/-- Whether there is a parameter for a payment is told by what follows the others. -/
theorem dropStart?_behindParameters
    (payable : Bool)
    (returned : Text) :
    Text.dropStart? (behindParameters payable returned) paymentParameter =
      if payable then some (") -> " ++ (returned ++ ":")) else none := by
  cases payable with
  | true => exact Text.dropStart?_append paymentParameter _
  | false => rfl

/-- The head of a method is read from its line. -/
theorem readHead?_headText
    {normal : Text → Text}
    {className name : Text}
    {binding : FunctionBinding}
    {kind : MethodKind}
    (isReadable : IsReadable normal className binding kind name) :
    readHead? normal (margin 1 ++ headText binding kind name) =
      some ⟨name, binding.parameters.map (·.name), binding.payable⟩ := by
  have isText :
      margin 1 ++ headText binding kind name =
        (margin 1 ++ "async def ") ++
          (name ++ ("(self" ++ (binding.parameters.flatMap annotated ++
            behindParameters binding.payable (returnText binding kind)))) := by
    simp only [behindParameters, headText, parameterList_eq, List.append_assoc]
  have endsName : ∀ more : Text, EndsName ("(self" ++ more) :=
    fun more => ⟨'(', _, rfl, by decide⟩
  have isReturned := isTypeText_returnText isReadable.returns kind
  generalize returnText binding kind = returned at isText isReturned
  have ofParameters :=
    readParameters_flatMap isReadable.areNames isReadable.haveWords
      (endsTypeText_behindParameters binding.payable returned)
      (readParameter?_behindParameters normal binding.payable returned)
      (length_le_length_flatMap_annotated binding.parameters
        (behindParameters binding.payable returned))
  rw [isText, readHead?]
  simp only [Text.dropStart?_append, Option.bind_eq_bind, Option.bind_some,
    readWord_append (isIdentifier_of_isNormalName isReadable.isName) (Or.inr (endsName _)),
    isReadable.isName, guard_true, ofParameters, dropStart?_behindParameters]
  cases binding.payable with
  | true =>
      simp only [↓reduceIte, Option.getD_some, Text.dropStart?_append, Option.bind_some,
        Text.dropEnd?_append, isReturned, guard_true, Option.pure_def, Option.isSome_some]
  | false =>
      have isBehind : behindParameters false returned = ") -> " ++ (returned ++ ":") := rfl
      simp only [Bool.false_eq_true, ↓reduceIte, Option.getD_none, isBehind,
        Text.dropStart?_append, Option.bind_some, Text.dropEnd?_append, isReturned, guard_true,
        Option.pure_def, Option.isSome_none]

/-!
## The lines of a method
-/

theorem closed_word
    {word : Text}
    (isWord : Text.isIdentifier word = true) :
    Closed word :=
  closed_of_isBare fun c member =>
    isBare_of_isTypeTextPart (isTypeTextPart_of_mem_word isWord c member)

theorem closed_render
    {type : TypeExpression}
    (hasWords : type.HasWords) :
    Closed type.render :=
  closed_of_isBare fun c member =>
    isBare_of_isTypeTextPart (isTypeTextPart_of_mem_render hasWords c member)

theorem closed_parameters
    {normal : Text → Text}
    {parameters : List MethodParameter}
    (areNames : ∀ parameter ∈ parameters, isNormalName normal parameter.name = true)
    (haveWords : ∀ parameter ∈ parameters, parameter.expression.HasWords) :
    Closed (parameters.flatMap annotated) := by
  induction parameters with
  | nil =>
      rfl
  | cons parameter parameters inductionHypothesis =>
      rw [List.forall_mem_cons] at areNames haveWords
      have ofName := closed_word (isIdentifier_of_isNormalName areNames.1)
      have ofFirst : Closed (annotated parameter) :=
        ((Closed.append (by rfl) ofName).append (by rfl)).append (closed_render haveWords.1)
      exact ofFirst.append (inductionHypothesis areNames.2 haveWords.2)

theorem closed_headText
    {normal : Text → Text}
    {className name : Text}
    {binding : FunctionBinding}
    {kind : MethodKind}
    (isReadable : IsReadable normal className binding kind name) :
    Closed (headText binding kind name) := by
  have ofName := closed_word (isIdentifier_of_isNormalName isReadable.isName)
  have ofParameters : Closed (parameterList binding) := by
    refine (closed_parameters isReadable.areNames isReadable.haveWords).append ?_
    cases binding.payable <;> rfl
  have ofReturned : Closed (returnText binding kind) := by
    cases kind with
    | localCall => exact closed_render isReadable.returns
    | remoteCall => rfl
  have front : Closed ("async def " ++ name ++ "(self" ++ parameterList binding) :=
    ((Closed.append (by rfl) ofName).append (by rfl)).append ofParameters
  exact ((front.append (by rfl)).append ofReturned).append (by rfl)

/-- What the line with the selector of a call says. -/
def selectorText (selector : Octets) : Text :=
  "bytes.fromhex(" ++ inQuotes (Octets.toHex selector) ++ "),"

theorem closed_selectorText
    (selector : Octets) :
    Closed (selectorText selector) := by
  have ofDigits : Closed (inQuotes (Octets.toHex selector) ++ "),") :=
    closed_inQuotes_digits (fun _ => Octets.isSmallHexDigit_of_mem_toHex) (by rfl) (by rfl)
  rw [selectorText, List.append_assoc]
  exact Closed.append (by rfl) ofDigits

theorem closed_descriptionList
    (parameters : List Parameter) :
    Closed (descriptionList parameters ++ ",") :=
  (closed_literal (Parameter.isPlain_described parameters)).append (by rfl)

/-- What the line with the arguments of a call says. -/
def argumentsText (names : List Text) : Text :=
  "[" ++ Text.join ", " names ++ "],"

theorem closed_argumentsText
    {normal : Text → Text}
    {parameters : List MethodParameter}
    (areNames : ∀ parameter ∈ parameters, isNormalName normal parameter.name = true) :
    Closed (argumentsText (parameters.map (·.name))) := by
  refine Closed.between (by rfl) (closed_join ?_) (by rfl)
  exact List.forall_mem_map.mpr fun parameter member =>
    closed_word (isIdentifier_of_isNormalName (areNames parameter member))

/-- The lines of a call behind the descriptions of its parameters. -/
def endingLines (binding : FunctionBinding) : MethodKind → List Text
  | .localCall =>
      [margin 3 ++ (descriptionList binding.outputs ++ ","),
        margin 3 ++ argumentsText (binding.parameters.map (·.name)),
        shapeLine binding.returnShape]
  | .remoteCall =>
      [margin 3 ++ argumentsText (binding.parameters.map (·.name)),
        margin 3 ++ (binding.abiName.quoted ++ ",")]

/-- The lines at the end of a call. -/
def closingLines (payable : Bool) : List Text :=
  (if payable then [margin 3 ++ "attached_value,"] else []) ++ [margin 2 ++ ")"]

/-- The lines of a method behind its documentation. -/
def callLines (binding : FunctionBinding) (kind : MethodKind) : List Text :=
  [callLine (callee kind), margin 3 ++ selectorText binding.selector,
    margin 3 ++ (descriptionList binding.inputs ++ ",")] ++
    endingLines binding kind ++ closingLines binding.payable

/-- The lines of a method. -/
def methodLines (binding : FunctionBinding) (kind : MethodKind) (name : Text) : List Text :=
  [margin 1 ++ headText binding kind name, documentationLine binding kind] ++
    callLines binding kind

theorem codeLines_closing
    (payable : Bool)
    (rest : Text) :
    codeLines ((if payable then line 3 "attached_value," 1 else []) ++ (line 2 ")" 2 ++ rest)) =
      closingLines payable ++ codeLines rest := by
  have ofLast : codeLines (line 2 ")" 2 ++ rest) = (margin 2 ++ ")") :: codeLines rest :=
    codeLines_line (by rfl) (by decide) 2 1 rest
  cases payable with
  | true =>
      rw [if_pos rfl, codeLines_line (by rfl) (by decide), ofLast]
      rfl
  | false =>
      exact ofLast

theorem codeLines_descriptionList
    (parameters : List Parameter)
    (rest : Text) :
    codeLines (line 3 (descriptionList parameters ++ ",") 1 ++ rest) =
      (margin 3 ++ (descriptionList parameters ++ ",")) :: codeLines rest :=
  codeLines_line (closed_descriptionList parameters)
    (List.append_ne_nil_of_right_ne_nil _ (by decide)) 3 0 rest

theorem codeLines_argumentsLine
    {normal : Text → Text}
    {binding : FunctionBinding}
    (areNames : ∀ parameter ∈ binding.parameters, isNormalName normal parameter.name = true)
    (rest : Text) :
    codeLines (argumentsLine binding ++ rest) =
      (margin 3 ++ argumentsText (binding.parameters.map (·.name))) :: codeLines rest :=
  codeLines_line (closed_argumentsText areNames)
    (List.append_ne_nil_of_right_ne_nil _ (by decide)) 3 0 rest

/-- A call begins with its selector and the descriptions of what it takes. -/
theorem codeLines_callStart
    (binding : FunctionBinding)
    (kind : MethodKind)
    (rest : Text) :
    codeLines
        (line 2 ("return await self." ++ callee kind ++ "(") 1 ++
          (line 3 (selectorText binding.selector) 1 ++
            (line 3 (descriptionList binding.inputs ++ ",") 1 ++ rest))) =
      [callLine (callee kind), margin 3 ++ selectorText binding.selector,
          margin 3 ++ (descriptionList binding.inputs ++ ",")] ++
        codeLines rest := by
  have ofCallee : Closed ("return await self." ++ callee kind ++ "(") := by
    cases kind <;> rfl
  rw [codeLines_line ofCallee (List.append_ne_nil_of_right_ne_nil _ (by decide)),
    codeLines_line (closed_selectorText binding.selector)
      (List.append_ne_nil_of_right_ne_nil _ (by decide)), codeLines_descriptionList]
  rfl

theorem codeLines_call
    {normal : Text → Text}
    {binding : FunctionBinding}
    (areNames : ∀ parameter ∈ binding.parameters, isNormalName normal parameter.name = true)
    (kind : MethodKind)
    (rest : Text) :
    codeLines
        (line 2 ("return await self." ++ callee kind ++ "(") 1 ++
          (line 3 (selectorText binding.selector) 1 ++
            (line 3 (descriptionList binding.inputs ++ ",") 1 ++
              (outputsLine binding kind ++
                (argumentsLine binding ++ (callEnd binding kind ++ rest)))))) =
      callLines binding kind ++ codeLines rest := by
  rw [codeLines_callStart, callLines, List.append_assoc, List.append_assoc]
  refine congrArg _ ?_
  cases kind with
  | localCall =>
      have ofEnd :
          codeLines (callEnd binding .localCall ++ rest) =
            shapeLine binding.returnShape :: (closingLines binding.payable ++ codeLines rest) := by
        rw [← codeLines_closing, callEnd.eq_def]
        simp only [List.append_assoc]
        cases binding.returnShape
        all_goals exact codeLines_line (by rfl) (by decide) 3 0 _
      rw [outputsLine, codeLines_descriptionList, codeLines_argumentsLine areNames, ofEnd]
      rfl
  | remoteCall =>
      have ofName : Closed (binding.abiName.quoted ++ ",") :=
        (closed_quoted binding.abiName).append (by rfl)
      have ofEnd :
          codeLines (callEnd binding .remoteCall ++ rest) =
            (margin 3 ++ (binding.abiName.quoted ++ ",")) ::
              (closingLines binding.payable ++ codeLines rest) := by
        rw [← codeLines_closing, callEnd.eq_def]
        simp only [List.append_assoc]
        exact codeLines_line ofName (List.append_ne_nil_of_right_ne_nil _ (by decide)) 3 0 _
      rw [outputsLine, List.nil_append, codeLines_argumentsLine areNames, ofEnd]
      rfl

/-- A method that can be read is written on its lines. -/
theorem codeLines_method
    {normal : Text → Text}
    {className name : Text}
    {binding : FunctionBinding}
    {kind : MethodKind}
    (isReadable : IsReadable normal className binding kind name)
    (rest : Text) :
    codeLines (method binding kind name ++ rest) =
      methodLines binding kind name ++ codeLines rest := by
  have isText :
      method binding kind name ++ rest =
        line 1 (headText binding kind name) 1 ++
          (documentation binding kind ++
            (line 2 ("return await self." ++ callee kind ++ "(") 1 ++
              (line 3 (selectorText binding.selector) 1 ++
                (line 3 (descriptionList binding.inputs ++ ",") 1 ++
                  (outputsLine binding kind ++
                    (argumentsLine binding ++ (callEnd binding kind ++ rest))))))) := by
    simp only [method_eq, beforeCall, List.append_assoc]
    cases kind <;> simp only [headText, returnText, selectorText, List.append_assoc]
  rw [isText,
    codeLines_line (closed_headText isReadable) (List.append_ne_nil_of_right_ne_nil _ (by decide)),
    codeLines_documentation isReadable.documented, codeLines_call isReadable.areNames]
  rfl

/-!
## A method is read
-/

theorem isDocumentation_documentationLine
    {binding : FunctionBinding}
    {kind : MethodKind}
    (documented :
      checkQuotedLine ((documentation binding kind).length + 1) false
          (documentation binding kind) =
        .ok ()) :
    isDocumentation (documentationLine binding kind) = true := by
  have isLine : documentation binding kind = documentationLine binding kind ++ "\n" :=
    documentation_eq binding kind
  have begins :
      documentationLine binding kind =
        (margin 2 ++ Text.tripleQuotes) ++
          (Source.documented binding kind ++ Text.tripleQuotes) := by
    simp only [documentationLine, List.append_assoc]
    rfl
  have startsQuoted :
      Text.startsWith (documentationLine binding kind) (margin 2 ++ Text.tripleQuotes) = true := by
    rw [begins, Text.startsWith, Text.dropStart?_append]
    rfl
  have hasLength :
      (documentation binding kind).length + 1 = (documentationLine binding kind).length + 2 := by
    rw [isLine, List.length_append]
    rfl
  rw [hasLength, isLine] at documented
  rw [isDocumentation, startsQuoted, documented]
  rfl

theorem readDescriptions?_descriptionList
    {parameters : List Parameter}
    (fits : 1 + (Parameter.described parameters).brackets ≤ greatestBrackets) :
    readDescriptions? (margin 3 ++ (descriptionList parameters ++ ",")) =
      some (Parameter.descriptions parameters) := by
  have reads :
      readLine? 3 [] "," 1 (margin 3 ++ (descriptionList parameters ++ ",")) =
        some (.list (parameters.map (·.describe))) :=
    (writes_described parameters).trans (if_pos fits)
  rw [readDescriptions?, reads, ← Parameter.describeAll_eq_map]
  exact congrArg some (Parameter.ofValues_describeAll parameters)

theorem readShape?_shapeLine
    (shape : ReturnShape) :
    readShape? (shapeLine shape) = some shape := by
  cases shape <;> decide

theorem readSelector
    (selector : Octets) :
    (readTextLine? 3 "bytes.fromhex(" ")," 2 (margin 3 ++ selectorText selector)).bind
        Octets.ofHex? =
      some selector := by
  have reads :=
    (readLine?_append 3 "bytes.fromhex(" ")," 2 (inQuotes (Octets.toHex selector))).trans
      (read?_inQuotes (fun _ => Octets.isSmallHexDigit_of_mem_toHex) 2)
  rw [readTextLine?, selectorText, reads]
  exact Octets.ofHex?_toHex selector

/-- What a method does behind its arguments is read. -/
theorem readEnding?_endingLines
    {binding : FunctionBinding}
    {kind : MethodKind}
    (described : checkDescriptions binding kind = .ok ())
    (name : Text)
    (rest : List Text) :
    readEnding? (margin 3 ++ argumentsText (binding.parameters.map (·.name)))
        (callLine (callee kind)) (endingLines binding kind ++ rest) =
      some ((binding.method kind name).ending, rest) := by
  cases kind with
  | localCall =>
      have fits := (checkDescriptions_eq_ok_iff.mp described).2 rfl
      have reads := readDescriptions?_descriptionList fits
      have isLocal : callLine (callee .localCall) = callLine "_local_call" := rfl
      rw [endingLines, List.cons_append, List.cons_append, List.cons_append, List.nil_append,
        readEnding?]
      simp only [isLocal, ↓reduceIte, guard_true, Option.bind_eq_bind, Option.bind_some, reads,
        readShape?_shapeLine, Option.pure_def]
      rfl
  | remoteCall =>
      have reads :
          readTextLine? 3 [] "," 1 (margin 3 ++ (binding.abiName.quoted ++ ",")) =
            some binding.abiName := by
        have ofLine := readLine?_append 3 [] "," 1 binding.abiName.quoted
        rw [Literal.read?_quoted binding.abiName (by decide), List.nil_append] at ofLine
        rw [readTextLine?, ofLine]
      have isRemote : callLine (callee .remoteCall) = callLine "_remote_call" := rfl
      rw [endingLines, List.cons_append, List.cons_append, List.nil_append, readEnding?.eq_def]
      simp only [isRemote, guard_true, Option.bind_eq_bind, Option.bind_some, reads,
        Option.pure_def]
      rfl

theorem readClosing?_closingLines
    (payable : Bool)
    (rest : List Text) :
    readClosing? payable (closingLines payable ++ rest) = some rest := by
  cases payable <;> rfl

/-- What is read from the lines of a method is the method. -/
theorem readMethod?_methodLines
    {normal : Text → Text}
    {className name : Text}
    {binding : FunctionBinding}
    {kind : MethodKind}
    (isReadable : IsReadable normal className binding kind name)
    (rest : List Text) :
    readMethod? normal className (methodLines binding kind name ++ rest) =
      some (binding.method kind name, rest) := by
  have fits := (checkDescriptions_eq_ok_iff.mp isReadable.described).1
  have areLines :
      methodLines binding kind name ++ rest =
        (margin 1 ++ headText binding kind name) :: documentationLine binding kind ::
          callLine (callee kind) :: (margin 3 ++ selectorText binding.selector) ::
            (margin 3 ++ (descriptionList binding.inputs ++ ",")) ::
              (endingLines binding kind ++ (closingLines binding.payable ++ rest)) := by
    simp only [methodLines, callLines, List.append_assoc]
    rfl
  have ofSelector := readSelector binding.selector
  have ofEnding :=
    readEnding?_endingLines isReadable.described name (closingLines binding.payable ++ rest)
  obtain ⟨selectorRead, isRead, isSelector⟩ := Option.bind_eq_some_iff.mp ofSelector
  rw [argumentsText] at ofEnding
  rw [areLines, readMethod?]
  simp only [readHead?_headText isReadable, Option.bind_eq_bind, Option.bind_some,
    isReadable.isApart, isDocumentation_documentationLine isReadable.documented, guard_true,
    isRead, isSelector, readDescriptions?_descriptionList fits, ofEnding,
    readClosing?_closingLines, Option.pure_def]
  rfl

end Source

end ContractBindings
