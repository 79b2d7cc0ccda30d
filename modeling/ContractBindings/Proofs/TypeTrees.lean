import ContractBindings.Proofs.IdentifierNames

namespace ContractBindings

/-!
# Types in signatures

A signature writes a tuple as the types of its components in parentheses, with what stands
behind the word in its type at the end.  Other types are written as they are.  Accepted types
hold no parentheses and no commas, so that what is written is taken apart again: a type ends
where a comma stands or where a parenthesis is closed that was opened in front of it.

Main statement: the signatures of two functions or events are the same exactly if their names
and the trees of their types are.
-/

namespace CodePoint

/-- What the types of accepted parameters are made of. -/
def isTypePart (c : CodePoint) : Bool :=
  c.isAsciiLetter || c.isDecimalDigit || c = '[' || c = ']' || c = '\n'

theorem isTypePart_of_isAsciiLetter
    {c : CodePoint}
    (isLetter : c.isAsciiLetter = true) :
    c.isTypePart = true := by
  simp [isTypePart, isLetter]

theorem isTypePart_of_isDecimalDigit
    {c : CodePoint}
    (isDigit : c.isDecimalDigit = true) :
    c.isTypePart = true := by
  simp [isTypePart, isDigit]

end CodePoint

namespace Text

/-- A text is known up to the first code point behind it that is outside of a class to which all
of its own belong. -/
theorem eq_of_append_run
    {inClass : CodePoint → Bool}
    {first second rest other : Text}
    (areFirst : ∀ c ∈ first, inClass c = true)
    (areSecond : ∀ c ∈ second, inClass c = true)
    (ends : ∀ c ∈ rest.head?, inClass c = false)
    (otherEnds : ∀ c ∈ other.head?, inClass c = false)
    (same : first ++ rest = second ++ other) :
    first = second ∧ rest = other := by
  have noRun : ∀ {ending : Text}, (∀ c ∈ ending.head?, inClass c = false) →
      ending.takeWhile inClass = [] := by
    intro ending outside
    cases ending with
    | nil =>
        rfl
    | cons c ending =>
        rw [List.takeWhile_cons, outside c rfl]
        rfl
  have sameRun := congrArg (List.takeWhile inClass) same
  rw [List.takeWhile_append_of_pos areFirst, List.takeWhile_append_of_pos areSecond, noRun ends,
    noRun otherEnds, List.append_nil, List.append_nil] at sameRun
  subst sameRun
  exact ⟨rfl, List.append_cancel_left same⟩

end Text

namespace TypeExpression

/-- The type of an accepted parameter is made of letters, decimal digits, brackets and a line
break, and it is not empty. -/
theorem isTypePart_of_ofParameter
    {place : Option Place}
    {marks : Entries}
    {parameter : Parameter}
    {expression : TypeExpression}
    (mapped : ofParameter place marks parameter = .ok expression) :
    parameter.type ≠ [] ∧ ∀ c ∈ parameter.type, c.isTypePart = true := by
  obtain ⟨base, count, element, ⟨sizes, ending, -, areDigits, isEnding, whole⟩, -, isBase⟩ :=
    ofParameter_cases mapped
  have ofBase : Text.dropLineBreak base ≠ [] ∧
      ∀ c ∈ Text.dropLineBreak base, c.isTypePart = true := by
    rcases isBase with
      ⟨first, letters, digits, written, -, areLetters, areDecimal, -⟩ | ⟨isTuple, -⟩
    · rw [written]
      refine ⟨List.cons_ne_nil _ _, List.forall_mem_append.mpr ⟨fun c member => ?_, fun c member =>
        CodePoint.isTypePart_of_isDecimalDigit (areDecimal c member)⟩⟩
      exact CodePoint.isTypePart_of_isAsciiLetter (List.all_eq_true.mp areLetters c member)
    · rw [isTuple]
      exact ⟨by decide, List.all_eq_true.mp (by decide)⟩
  have ofSizes : ∀ c ∈ Text.arraySuffixes sizes, c.isTypePart = true := by
    intro c member
    obtain ⟨size, isSize, inSuffix⟩ := List.mem_flatMap.mp member
    simp only [List.mem_append] at inSuffix
    rcases inSuffix with (opening | digit) | closing
    · exact List.all_eq_true.mp (by decide : (Text.ofString "[").all _ = true) c opening
    · exact CodePoint.isTypePart_of_isDecimalDigit (areDigits size isSize c digit)
    · exact List.all_eq_true.mp (by decide : (Text.ofString "]").all _ = true) c closing
  have ofEnding : ∀ c ∈ ending, c.isTypePart = true := by
    rcases isEnding with rfl | rfl <;> exact List.all_eq_true.mp (by decide)
  rw [whole]
  exact ⟨List.append_ne_nil_of_left_ne_nil ofBase.1 _, List.forall_mem_append.mpr
    ⟨ofBase.2, List.forall_mem_append.mpr ⟨ofSizes, ofEnding⟩⟩⟩

end TypeExpression

/-!
## Trees of types
-/

/-- A type as it stands in a signature, with its components apart from what stands behind
them. -/
inductive TypeTree where
  | leaf (type : Text)
  | tuple (components : List TypeTree) (suffix : Text)

namespace TypeTree

mutual

/-- The text of a type in a signature. -/
def write : TypeTree → Text
  | .leaf type => type
  | .tuple components suffix => "(" ++ Text.join "," (writeAll components) ++ ")" ++ suffix

def writeAll : List TypeTree → List Text
  | [] => []
  | tree :: trees => tree.write :: writeAll trees

end

theorem writeAll_eq_map
    (trees : List TypeTree) :
    writeAll trees = trees.map write := by
  induction trees with
  | nil =>
      rfl
  | cons tree trees inductionHypothesis =>
      rw [writeAll, inductionHypothesis, List.map_cons]

/-- The trees of types that may stand in a signature. -/
inductive IsSound : TypeTree → Prop where
  | leaf
      {type : Text}
      (notEmpty : type ≠ [])
      (areParts : ∀ c ∈ type, c.isTypePart = true) :
      IsSound (.leaf type)
  | tuple
      {components : List TypeTree}
      {suffix : Text}
      (areSound : ∀ component ∈ components, IsSound component)
      (areParts : ∀ c ∈ suffix, c.isTypePart = true) :
      IsSound (.tuple components suffix)

/-- A text in front of which a type ends. -/
def EndsType (rest : Text) : Prop :=
  ∀ c ∈ rest.head?, c.isTypePart = false

/-- A type is known up to what ends it, and so is what stands behind it. -/
def IsToldApart (tree : TypeTree) : Prop :=
  ∀ other rest ending, other.IsSound → EndsType rest → EndsType ending →
    tree.write ++ rest = other.write ++ ending → tree = other ∧ rest = ending

/-- What stands behind the first of several types that parentheses hold. -/
def behind (trees : List TypeTree) (rest : Text) : Text :=
  trees.foldr (fun tree text => "," ++ (tree.write ++ text)) (")" ++ rest)

theorem join_writeAll_cons
    (tree : TypeTree)
    (trees : List TypeTree)
    (rest : Text) :
    Text.join "," (writeAll (tree :: trees)) ++ (")" ++ rest) =
      tree.write ++ behind trees rest := by
  induction trees generalizing tree with
  | nil =>
      rw [writeAll, writeAll, Text.join_singleton]
      rfl
  | cons next trees inductionHypothesis =>
      have ofNext := inductionHypothesis next
      rw [writeAll] at ofNext ⊢
      rw [writeAll, Text.join_cons_cons, List.append_assoc, List.append_assoc, ofNext]
      rfl

/-- A type ends in front of a comma or of a closing parenthesis. -/
theorem endsType_behind
    (trees : List TypeTree)
    (rest : Text) :
    EndsType (behind trees rest) := by
  cases trees with
  | nil =>
      rintro _ ⟨⟩
      decide
  | cons tree trees =>
      rintro _ ⟨⟩
      decide

/-- No type begins with what closes a parenthesis. -/
theorem IsSound.write_append_ne
    {tree : TypeTree}
    (sound : tree.IsSound)
    (rest other : Text) :
    tree.write ++ rest ≠ ")" ++ other := by
  have notPart : (CodePoint.ofChar ')').isTypePart = false := by
    decide
  intro same
  cases sound with
  | @leaf type notEmpty areParts =>
      obtain ⟨first, others, rfl⟩ := List.exists_cons_of_ne_nil notEmpty
      have isFirst : first = ')' := (List.cons.inj same).1
      have isPart := areParts first List.mem_cons_self
      rw [isFirst, notPart] at isPart
      cases isPart
  | tuple =>
      exact absurd (List.cons.inj same).1 (by decide)

/-- Types in parentheses are told apart if each of the first ones is. -/
theorem eq_of_behind
    {trees others : List TypeTree}
    (each : ∀ tree ∈ trees, tree.IsToldApart)
    (areSound : ∀ other ∈ others, other.IsSound)
    {rest ending : Text}
    (same : behind trees rest = behind others ending) :
    trees = others ∧ rest = ending := by
  induction trees generalizing others with
  | nil =>
      cases others with
      | nil =>
          exact ⟨rfl, (List.cons.inj same).2⟩
      | cons other others =>
          exact absurd (List.cons.inj same).1 (by decide)
  | cons tree trees inductionHypothesis =>
      cases others with
      | nil =>
          exact absurd (List.cons.inj same).1 (by decide)
      | cons other others =>
          obtain ⟨ofTree, ofTrees⟩ := List.forall_mem_cons.mp each
          obtain ⟨otherSound, othersSound⟩ := List.forall_mem_cons.mp areSound
          obtain ⟨rfl, sameRest⟩ := ofTree other _ _ otherSound (endsType_behind trees rest)
            (endsType_behind others ending) (List.cons.inj same).2
          obtain ⟨rfl, sameEnding⟩ := inductionHypothesis ofTrees othersSound sameRest
          exact ⟨rfl, sameEnding⟩

/-- So they are in front of the parenthesis that closes them. -/
theorem eq_of_join_writeAll
    {trees others : List TypeTree}
    (each : ∀ tree ∈ trees, tree.IsToldApart)
    (sound : ∀ tree ∈ trees, tree.IsSound)
    (areSound : ∀ other ∈ others, other.IsSound)
    {rest ending : Text}
    (same :
      Text.join "," (writeAll trees) ++ (")" ++ rest) =
        Text.join "," (writeAll others) ++ (")" ++ ending)) :
    trees = others ∧ rest = ending := by
  cases trees with
  | nil =>
      cases others with
      | nil =>
          exact ⟨rfl, (List.cons.inj same).2⟩
      | cons other others =>
          rw [join_writeAll_cons] at same
          exact absurd same.symm ((areSound other List.mem_cons_self).write_append_ne _ _)
  | cons tree trees =>
      cases others with
      | nil =>
          rw [join_writeAll_cons] at same
          exact absurd same ((sound tree List.mem_cons_self).write_append_ne _ _)
      | cons other others =>
          rw [join_writeAll_cons, join_writeAll_cons] at same
          refine eq_of_behind each areSound ?_
          exact congrArg (Text.ofString "," ++ ·) same

theorem IsSound.isToldApart
    {tree : TypeTree}
    (sound : tree.IsSound) :
    tree.IsToldApart := by
  -- Only a tuple begins with a parenthesis.
  have notOpening : ∀ {type : Text}, type ≠ [] → (∀ c ∈ type, c.isTypePart = true) →
      ∀ rest ending : Text, type ++ rest ≠ "(" ++ ending := by
    intro type notEmpty areParts rest ending same
    obtain ⟨first, others, rfl⟩ := List.exists_cons_of_ne_nil notEmpty
    have isFirst : first = '(' := (List.cons.inj same).1
    exact absurd (areParts first List.mem_cons_self) (by rw [isFirst]; decide)
  induction sound with
  | leaf notEmpty areParts =>
      intro other rest ending otherSound ends otherEnds same
      cases otherSound with
      | leaf _ otherParts =>
          obtain ⟨rfl, sameRest⟩ := Text.eq_of_append_run areParts otherParts ends otherEnds same
          exact ⟨rfl, sameRest⟩
      | tuple =>
          rw [write, write] at same
          simp only [List.append_assoc] at same
          exact absurd same (notOpening notEmpty areParts _ _)
  | tuple areSound areParts inductionHypothesis =>
      intro other rest ending otherSound ends otherEnds same
      cases otherSound with
      | leaf notEmpty otherParts =>
          rw [write, write] at same
          simp only [List.append_assoc] at same
          exact absurd same.symm (notOpening notEmpty otherParts _ _)
      | tuple otherSound otherParts =>
          rw [write, write] at same
          simp only [List.append_assoc] at same
          obtain ⟨rfl, sameRest⟩ := eq_of_join_writeAll inductionHypothesis areSound otherSound
            (List.append_cancel_left same)
          obtain ⟨rfl, sameEnding⟩ :=
            Text.eq_of_append_run areParts otherParts ends otherEnds sameRest
          exact ⟨rfl, sameEnding⟩

end TypeTree

namespace Parameter

mutual

/-- The type of a parameter, without the names of the parameter and its components. -/
def typeTree : Parameter → TypeTree
  | ⟨_, type, components, _⟩ =>
      match Text.dropStart? type "tuple" with
      | none => .leaf type
      | some suffix => .tuple (componentTrees components) suffix

def componentTrees : Option (List Parameter) → List TypeTree
  | none => []
  | some components => typeTrees components

/-- The types of several parameters. -/
def typeTrees : List Parameter → List TypeTree
  | [] => []
  | parameter :: rest => parameter.typeTree :: typeTrees rest

end

theorem typeTrees_eq_map
    (parameters : List Parameter) :
    typeTrees parameters = parameters.map typeTree := by
  induction parameters with
  | nil =>
      rfl
  | cons parameter parameters inductionHypothesis =>
      rw [typeTrees, inductionHypothesis, List.map_cons]

/-- A parameter whose type has a type expression, wherever it stands. -/
def IsAccepted (parameter : Parameter) : Prop :=
  ∃ place marks type, TypeExpression.ofParameter place marks parameter = .ok type

/-- An accepted parameter is signed with its type, which is sound. -/
def IsSigned (parameter : Parameter) : Prop :=
  parameter.typeTree.IsSound ∧
    ∀ place marks, parameter.canonicalType place marks = .ok parameter.typeTree.write

theorem canonicalTypes_of_isSigned
    {parameters : List Parameter}
    (areSigned : ∀ parameter ∈ parameters, parameter.IsSigned)
    (place : Option Place) :
    canonicalTypes place parameters =
      .ok (TypeTree.writeAll (parameters.map typeTree)) := by
  rw [TypeTree.writeAll_eq_map, List.map_map]
  exact canonicalTypes_eq_ok_iff.mpr
    (mapM_eq_ok fun parameter member => (areSigned parameter member).2 place [])

theorem IsAccepted.isSigned
    {parameter : Parameter}
    (accepted : parameter.IsAccepted) :
    parameter.IsSigned := by
  induction parameter using inductionOnMembers with
  | step parameter inductionHypothesis =>
      obtain ⟨name, type, components, internalType⟩ := parameter
      obtain ⟨place, marks, expression, mapped⟩ := accepted
      obtain ⟨notEmpty, areParts⟩ := TypeExpression.isTypePart_of_ofParameter mapped
      cases isTuple : Text.dropStart? type "tuple" with
      | none =>
          have isLeaf : typeTree ⟨name, type, components, internalType⟩ = .leaf type := by
            rw [typeTree, isTuple]
          rw [IsSigned, isLeaf]
          refine ⟨.leaf notEmpty areParts, fun place marks => ?_⟩
          rw [canonicalType, isTuple]
          rfl
      | some suffix =>
          obtain ⟨fields, ofFields, notNil⟩ :=
            TypeExpression.exists_components_of_dropStart? mapped isTuple
          obtain ⟨members, rfl, ofMembers⟩ :=
            TypeExpression.exists_members_of_ofComponents ofFields notNil
          have areSigned : ∀ member ∈ members, member.IsSigned := by
            intro member isMember
            obtain ⟨type, ofMember⟩ :=
              TypeExpression.exists_of_ofParameters ofMembers member isMember
            exact inductionHypothesis members rfl member isMember ⟨place, [], type, ofMember⟩
          have hasTree : typeTree ⟨name, type, some members, internalType⟩ =
              .tuple (members.map typeTree) suffix := by
            rw [typeTree, isTuple, ← typeTrees_eq_map]
            rfl
          rw [IsSigned, hasTree]
          refine ⟨.tuple (fun tree isTree => ?_) (fun c member => areParts c ?_),
            fun place marks => ?_⟩
          · obtain ⟨member, isMember, rfl⟩ := List.mem_map.mp isTree
            exact (areSigned member isMember).1
          · rw [Text.eq_append_of_dropStart? isTuple]
            exact List.mem_append_right _ member
          · -- Accepted tuples have components, so that none is refused for having none.
            cases members with
            | nil =>
                cases ofMembers
                exact absurd rfl notNil
            | cons member members =>
                rw [canonicalType, isTuple]
                dsimp only
                rw [canonicalComponents, canonicalTypes_of_isSigned areSigned place]
                rfl

end Parameter

/-!
## Signatures
-/

/-- A function or an event, as far as signatures tell of it. -/
inductive Signed where
  | function (name : Text) (parameters : List Parameter)
  | event (name : Text) (parameters : List EventParameter)

namespace Signed

def name : Signed → Text
  | .function name _ => name
  | .event name _ => name

def parameters : Signed → List Parameter
  | .function _ parameters => parameters
  | .event _ parameters => parameters.map (·.toParameter)

def signature (place : Option Place) : Signed → Except Rejection Text
  | .function name parameters => functionSignature place name parameters
  | .event name parameters => eventSignature place name parameters

/-- The types of the parameters. -/
def types (signed : Signed) : List TypeTree :=
  signed.parameters.map Parameter.typeTree

/-- A function or an event with accepted parameters is signed with their types. -/
theorem signature_eq
    {signed : Signed}
    (accepted : ∀ parameter ∈ signed.parameters, parameter.IsAccepted)
    (place : Option Place) :
    signed.signature place = .ok (signatureOf signed.name (TypeTree.writeAll signed.types)) := by
  have areSigned : ∀ parameter ∈ signed.parameters, parameter.IsSigned :=
    fun parameter member => (accepted parameter member).isSigned
  cases signed with
  | function name parameters =>
      have ofTypes : Parameter.canonicalTypes place parameters = _ :=
        Parameter.canonicalTypes_of_isSigned areSigned place
      rw [signature, functionSignature, ofTypes]
      rfl
  | event name parameters =>
      have ofTypes : parameters.mapM (fun p => p.toParameter.canonicalType place p.marks) =
          .ok (parameters.map fun p => p.toParameter.typeTree.write) :=
        mapM_eq_ok fun parameter member =>
          (areSigned _ (List.mem_map_of_mem member)).2 place parameter.marks
      have sameTypes : TypeTree.writeAll (types (.event name parameters)) =
          parameters.map fun p => p.toParameter.typeTree.write := by
        rw [TypeTree.writeAll_eq_map, types, Signed.parameters, List.map_map, List.map_map]
        rfl
      rw [signature, eventSignature, ofTypes, sameTypes]
      rfl

/-- Names that are identifiers and types that are accepted are known by the signature that is
made of them, whatever the parameters and their components are called. -/
theorem signature_eq_iff
    {first second : Signed}
    (firstIsName : Names.isSolidityIdentifier first.name = true)
    (secondIsName : Names.isSolidityIdentifier second.name = true)
    (firstAccepted : ∀ parameter ∈ first.parameters, parameter.IsAccepted)
    (secondAccepted : ∀ parameter ∈ second.parameters, parameter.IsAccepted)
    (place other : Option Place) :
    ∃ t u,
      first.signature place = .ok t ∧ second.signature other = .ok u ∧
        (t = u ↔ first.name = second.name ∧ first.types = second.types) := by
  refine ⟨_, _, signature_eq firstAccepted place, signature_eq secondAccepted other, ?_⟩
  have areSound : ∀ {signed : Signed}, (∀ parameter ∈ signed.parameters, parameter.IsAccepted) →
      ∀ tree ∈ signed.types, tree.IsSound := by
    intro signed accepted tree isTree
    obtain ⟨parameter, member, rfl⟩ := List.mem_map.mp isTree
    exact (accepted parameter member).isSigned.1
  constructor
  · intro same
    simp only [signatureOf, List.append_assoc] at same
    obtain ⟨sameName, sameRest⟩ := Text.eq_of_append_run
      (Names.isSolidityPart_of_mem firstIsName) (Names.isSolidityPart_of_mem secondIsName)
      (by rintro _ ⟨⟩; decide) (by rintro _ ⟨⟩; decide) same
    have sameTypes := List.append_cancel_left sameRest
    rw [← List.append_nil (Text.ofString ")")] at sameTypes
    exact ⟨sameName, (TypeTree.eq_of_join_writeAll
      (fun tree isTree => (areSound firstAccepted tree isTree).isToldApart)
      (areSound firstAccepted) (areSound secondAccepted) sameTypes).1⟩
  · rintro ⟨sameName, sameTypes⟩
    rw [sameName, sameTypes]

/-- A function with a tuple and an array of tuples as parameters. -/
def nestedFunction : Signed :=
  .function "f"
    [⟨"a", "tuple", some [⟨"x", "uint8", none, none⟩, ⟨"y", "uint8[]", none, none⟩], none⟩,
      ⟨"b", "tuple[2]", some [⟨"", "address", none, none⟩], none⟩]

/-- An event with the same types under other names. -/
def nestedEvent : Signed :=
  .event "f"
    [⟨⟨"", "tuple", some [⟨"u", "uint8", none, none⟩, ⟨"", "uint8[]", none, none⟩], none⟩, true⟩,
      ⟨⟨"v", "tuple[2]", some [⟨"w", "address", none, none⟩], none⟩, false⟩]

/-- Names of parameters do not count, and neither does whether they are indexed. -/
theorem signature_eq_iff_nested :
    Names.isSolidityIdentifier nestedFunction.name = true ∧
      Names.isSolidityIdentifier nestedEvent.name = true ∧
        (∀ parameter ∈ nestedFunction.parameters, parameter.IsAccepted) ∧
          (∀ parameter ∈ nestedEvent.parameters, parameter.IsAccepted) ∧
            ∃ t,
              nestedFunction.signature none = .ok t ∧ nestedEvent.signature none = .ok t ∧
                t = "f((uint8,uint8[]),(address)[2])" := by
  have ofExpression : ∀ {parameter : Parameter},
      (TypeExpression.ofParameter none [] parameter).toOption.isSome = true →
        parameter.IsAccepted := by
    intro parameter isSome
    obtain ⟨type, found⟩ := Option.isSome_iff_exists.mp isSome
    exact ⟨none, [], type, eq_ok_of_toOption found⟩
  have isName : Names.isSolidityIdentifier nestedFunction.name = true ∧
      Names.isSolidityIdentifier nestedEvent.name = true := by
    decide
  have functionAccepted : ∀ parameter ∈ nestedFunction.parameters, parameter.IsAccepted :=
    List.forall_mem_cons.mpr ⟨ofExpression (by decide +kernel),
      List.forall_mem_singleton.mpr (ofExpression (by decide +kernel))⟩
  have eventAccepted : ∀ parameter ∈ nestedEvent.parameters, parameter.IsAccepted :=
    List.forall_mem_cons.mpr ⟨ofExpression (by decide +kernel),
      List.forall_mem_singleton.mpr (ofExpression (by decide +kernel))⟩
  have written : nestedFunction.signature none = .ok "f((uint8,uint8[]),(address)[2])" := by
    rfl
  obtain ⟨t, u, ofFunction, ofEvent, sameIff⟩ :=
    signature_eq_iff isName.1 isName.2 functionAccepted eventAccepted none none
  have same : t = u := sameIff.mpr ⟨rfl, rfl⟩
  refine ⟨isName.1, isName.2, functionAccepted, eventAccepted, t, ofFunction, same ▸ ofEvent, ?_⟩
  exact Except.ok.inj (ofFunction.symm.trans written)

end Signed

end ContractBindings
