import ContractBindings.Proofs.DecodedRanges
import ContractBindings.Proofs.DeclaredValues
import ContractBindings.Proofs.DenotedTypes

namespace ContractBindings

/-!
# Values of type expressions

A type expression is inhabited by the values that its annotation promises.  What is
decoded under the type of a description and restored from there inhabits the
expression that the description denotes: the induction runs over the declared type,
which is both at once.
-/

namespace TypeExpression

/-- Whether a value inhabits a type with a name of its own.  The name of a type of
byte strings ends in their number, where it is fixed. -/
def namedHolds (name : Text) : Value → Bool
  | .null => name = "None"
  | .bool _ => name = "bool"
  | .int _ => name = "int"
  | .text _ => name = "str"
  | .bytes b =>
      name = "Bytes" || name = "Bytes" ++ Text.ofNat b.length ||
        (name = "Address" && b.length = 20)
  | _ => false

/-- Whether a value inhabits an integer type of the width that ends its name. -/
def brandedHolds (name : Text) : Value → Bool
  | .int i =>
      match Text.dropStart? name "UInt" with
      | some digits => (Text.decimalValue? digits).any fun bits => 0 ≤ i && i < twoTo bits
      | none =>
          match Text.dropStart? name "Int" with
          | some digits =>
              (Text.decimalValue? digits).any fun bits =>
                -(twoTo (bits - 1) : Int) ≤ i && i < twoTo (bits - 1)
          | none => false
  | _ => false

mutual

/-- Whether a value inhabits a type expression.  A record is a mapping with exactly the
keys of its fields, in order. -/
def holds : TypeExpression → Value → Bool
  | .named name, v => namedHolds name v
  | .branded name, v => brandedHolds name v
  | .list element, .list vs => vs.all element.holds
  | .record fields, .dict entries => fieldsHold fields entries
  | _, _ => false

/-- Whether entries are those of fields, in order, with values of their types. -/
def fieldsHold : List (Text × TypeExpression) → List (Key × Value) → Bool
  | [], [] => true
  | (name, type) :: fields, (key, v) :: entries =>
      key = .text name && type.holds v && fieldsHold fields entries
  | _, _ => false

end

theorem holds_integer_unsigned
    {width : Nat}
    {i : Int}
    (inRange : 0 ≤ i ∧ i < twoTo width) :
    (integer true width).holds (.int i) = true := by
  rw [integer]
  split
  · rfl
  · have digits : Text.dropStart? ("UInt" ++ Text.ofNat width) "UInt" = some (Text.ofNat width) :=
      Text.dropStart?_append _ _
    rw [if_pos rfl, holds, brandedHolds, digits]
    simpa only [Text.decimalValue?_ofNat, Option.any_some, Bool.and_eq_true, decide_eq_true_eq]
      using inRange

theorem holds_integer_signed
    {width : Nat}
    {i : Int}
    (inRange : -(twoTo (width - 1) : Int) ≤ i ∧ i < twoTo (width - 1)) :
    (integer false width).holds (.int i) = true := by
  rw [integer]
  split
  · rfl
  · have notUnsigned : Text.dropStart? ("Int" ++ Text.ofNat width) "UInt" = none :=
      Text.dropStart?_cons_ne (by decide) _ _
    have digits : Text.dropStart? ("Int" ++ Text.ofNat width) "Int" = some (Text.ofNat width) :=
      Text.dropStart?_append _ _
    rw [if_neg (by decide), holds, brandedHolds, notUnsigned, digits]
    simpa only [Text.decimalValue?_ofNat, Option.any_some, Bool.and_eq_true, decide_eq_true_eq]
      using inRange

/-- Values under the names of fields inhabit the fields, if each inhabits its type. -/
theorem fieldsHold_zip
    {names : List Text}
    {types : List TypeExpression}
    {values : List Value}
    (asMany : names.length = types.length)
    (hold : List.Forall₂ (fun type v => type.holds v = true) types values) :
    fieldsHold (names.zip types) ((names.map Key.text).zip values) = true := by
  induction hold generalizing names with
  | nil =>
      rw [List.length_nil, List.length_eq_zero_iff] at asMany
      rw [asMany]
      rfl
  | cons first others inductionHypothesis =>
      cases names with
      | nil =>
          cases asMany
      | cons name names =>
          rw [List.zip_cons_cons, List.map_cons, List.zip_cons_cons, fieldsHold, first,
            inductionHypothesis (Nat.succ.inj asMany), decide_eq_true rfl]
          rfl

end TypeExpression

namespace ScalarType

/-- What is decoded under a scalar type inhabits its expression, once it is restored. -/
theorem holds_of_restore
    {type : ScalarType}
    (valid : type.isValid = true)
    {v restored : Value}
    (yielded : type.abiType.Yields v)
    (ofValue : (DeclaredType.scalar type).layout.restore v = .ok restored) :
    type.expression.holds restored = true := by
  cases type with
  | address =>
      cases v with
      | text t =>
          obtain ⟨bytes, twenty, rfl⟩ := yielded
          have digits : (("0x" : Text) ++ Octets.toHex bytes).drop 2 = Octets.toHex bytes :=
            List.drop_left' (by rfl)
          rw [DeclaredType.layout, if_pos rfl, Layout.restore, Layout.addressOfDigits, digits,
            Octets.ofSpacedHex?_toHex] at ofValue
          cases ofValue
          simp [expression, TypeExpression.holds, TypeExpression.namedHolds, twenty]
      | _ =>
          cases yielded
  | uint width =>
      cases ofValue
      cases v with
      | int i =>
          exact TypeExpression.holds_integer_unsigned yielded
      | _ =>
          cases yielded
  | int width =>
      cases ofValue
      cases v with
      | int i =>
          exact TypeExpression.holds_integer_signed yielded
      | _ =>
          cases yielded
  | fixedBytes size =>
      cases ofValue
      simp only [isValid, Bool.and_eq_true, decide_eq_true_eq] at valid
      cases v with
      | bytes b =>
          have asLong : b.length = size := by
            have upToWord : b.length = min size 32 :=
              yielded
            omega
          simp [expression, TypeExpression.holds, TypeExpression.namedHolds, asLong]
      | _ =>
          cases yielded
  | bool =>
      cases ofValue
      cases v with
      | bool b =>
          rfl
      | _ =>
          cases yielded
  | bytes =>
      cases ofValue
      cases v with
      | bytes b =>
          rfl
      | _ =>
          cases yielded
  | string =>
      cases ofValue
      cases v with
      | text t =>
          rfl
      | _ =>
          cases yielded

end ScalarType

namespace DeclaredType

/-- What is decoded under a type inhabits its expression, once it is restored. -/
def RestoresInto (type : DeclaredType) : Prop :=
  ∀ v restored, type.abiType.Yields v → type.layout.restore v = .ok restored →
    type.expression.holds restored = true

/-- What is restored of components inhabits their expressions, if each type restores into
its own. -/
theorem forall_of_restoreMembers
    {declarations : Declarations}
    (each : ∀ declaration ∈ declarations, RestoresInto declaration.2)
    {names : List Text}
    (asMany : names.length = declarations.length)
    {vs : List Value}
    (yielded : AbiType.AllYield (abiTypes declarations) vs)
    {entries : Entries}
    (restored : Layout.restoreMembers (names.map .text) (layouts declarations) vs = .ok entries) :
    ∃ values,
      entries = (names.map Key.text).zip values ∧
        List.Forall₂ (fun type v => type.holds v = true) (expressions declarations) values := by
  induction declarations generalizing names vs entries with
  | nil =>
      rw [List.length_nil, List.length_eq_zero_iff] at asMany
      subst asMany
      rw [List.map_nil, Layout.restoreMembers] at restored
      · cases restored
        exact ⟨[], rfl, .nil⟩
      · simp
  | cons declaration rest inductionHypothesis =>
      obtain ⟨v, others, rfl, ofFirst, ofOthers⟩ := AbiType.allYield_cons yielded
      cases names with
      | nil =>
          cases asMany
      | cons name names =>
          rw [List.forall_mem_cons] at each
          rw [List.map_cons, layouts, Layout.restoreMembers] at restored
          simp only [Value.toKey?, bind_eq_ok_iff, pure_eq_ok_iff] at restored
          obtain ⟨first, ofValue, otherEntries, ofRest, rfl⟩ := restored
          obtain ⟨values, rfl, hold⟩ :=
            inductionHypothesis each.2 (Nat.succ.inj asMany) ofOthers ofRest
          exact ⟨first :: values, rfl, .cons (each.1 v first ofFirst ofValue) hold⟩

theorem length_expressions
    (declarations : Declarations) :
    (expressions declarations).length = declarations.length := by
  induction declarations with
  | nil =>
      rfl
  | cons declaration rest inductionHypothesis =>
      rw [expressions, List.length_cons, List.length_cons, inductionHypothesis]

/-- Every valid type with distinct keys restores into its expression. -/
theorem restoresInto
    (type : DeclaredType)
    (valid : type.isValid = true)
    (distinct : type.hasDistinctKeys = true) :
    RestoresInto type := by
  -- A tuple is restored under the keys that its record has for the same components.
  induction type using inductionOnComponents with
  | scalar type =>
      exact fun v restored => ScalarType.holds_of_restore valid
  | array element size inductionHypothesis =>
      intro v restored yielded ofValue
      have restoresElement := inductionHypothesis (isValid_array_iff.mp valid).1 distinct
      cases v with
      | tuple vs =>
          have each : ∀ v ∈ vs, element.abiType.Yields v :=
            yielded
          simp only [layout, Layout.restore, Layout.members?, bind_eq_ok_iff, Except.ok.injEq,
            pure_eq_ok_iff] at ofValue
          obtain ⟨_, rfl, elements, ofElements, rfl⟩ := ofValue
          rw [expression, TypeExpression.holds, List.all_eq_true]
          exact forall_mem_of_mapM ofElements fun v member restored ofElement =>
            restoresElement v restored (each v member) ofElement
      | _ =>
          cases yielded
  | tuple components inductionHypothesis =>
      intro v restored yielded ofValue
      obtain ⟨componentsDistinct, keysDistinct⟩ := hasDistinctKeys_tuple_iff.mp distinct
      have componentsValid := (isValid_tuple_iff.mp valid).1
      cases v with
      | tuple vs =>
          simp only [layout, Layout.restore, Layout.members?, bind_eq_ok_iff, Except.ok.injEq,
            pure_eq_ok_iff] at ofValue
          obtain ⟨_, rfl, _, rfl, entries, ofMembers, rfl⟩ := ofValue
          obtain ⟨values, rfl, hold⟩ :=
            forall_of_restoreMembers
              (fun component member => inductionHypothesis component member
                (componentsValid component member) (componentsDistinct component member))
              (length_keys components) yielded ofMembers
          rw [Entries.ofList_zip keysDistinct, expression, TypeExpression.holds]
          exact TypeExpression.fieldsHold_zip
            (by rw [length_keys, length_expressions]) hold
      | _ =>
          cases yielded

end DeclaredType

namespace Description

/-- What is decoded and restored under a description inhabits the expression that the
description denotes. -/
theorem Denotes.holds
    {description : Description}
    {expression : TypeExpression}
    (denotes : description.Denotes expression)
    {text : Text}
    {type : AbiType}
    (hasText : description.ownType = .ok text)
    (read : AbiType.ofText text = .ok type)
    {v restored : Value}
    (yielded : type.Yields v)
    (ofValue : (Layout.ofDescription description).restore v = .ok restored) :
    expression.holds restored = true := by
  obtain ⟨name, declared, described, valid, distinct, rfl, rfl⟩ := denotes text type hasText read
  have layouts := DeclaredType.ofDescriptions_of_describe described
  simp only [Layout.ofDescriptions, DeclaredType.layouts, List.cons.injEq, and_true] at layouts
  rw [layouts] at ofValue
  exact declared.restoresInto valid distinct v restored yielded ofValue

theorem holds_of_denotes
    {descriptions : List Description}
    {expressions : List TypeExpression}
    (denote : List.Forall₂ Denotes descriptions expressions)
    {texts : List Text}
    {types : List AbiType}
    (hasTexts : descriptions.mapM ownType = .ok texts)
    (read : texts.mapM AbiType.ofText = .ok types)
    {vs values : List Value}
    (yielded : AbiType.AllYield types vs)
    {report : Fault → ε}
    (restored : (((Layout.ofDescriptions descriptions).zip vs).mapM fun (layout, v) =>
      (layout.restore v).mapError report) = .ok values) :
    List.Forall₂ (fun expression v => expression.holds v = true) expressions values := by
  induction denote generalizing texts types vs values with
  | nil =>
      cases restored
      exact .nil
  | cons first others inductionHypothesis =>
      simp only [List.mapM_cons, bind_eq_ok_iff, pure_eq_ok_iff] at hasTexts
      obtain ⟨text, hasText, otherTexts, haveTexts, rfl⟩ := hasTexts
      simp only [List.mapM_cons, bind_eq_ok_iff, pure_eq_ok_iff] at read
      obtain ⟨type, readFirst, otherTypes, readOthers, rfl⟩ := read
      obtain ⟨v, otherVs, rfl, ofFirst, ofOthers⟩ := AbiType.allYield_cons yielded
      simp only [Layout.ofDescriptions, List.zip_cons_cons, List.mapM_cons, bind_eq_ok_iff,
        pure_eq_ok_iff, mapError_eq_ok_iff] at restored
      obtain ⟨value, ofValue, otherValues, ofValues, rfl⟩ := restored
      exact .cons (first.holds hasText readFirst ofFirst ofValue)
        (inductionHypothesis haveTexts readOthers ofOthers ofValues)

end Description

namespace Codec

/-- The values that are decoded under descriptions inhabit the expressions that these
denote. -/
theorem holds_of_decodeParameters
    {descriptions : List Description}
    {expressions : List TypeExpression}
    (denote : List.Forall₂ Description.Denotes descriptions expressions)
    {data : Octets}
    {values : List Value}
    (decoded : decodeParameters descriptions data = .ok values) :
    List.Forall₂ (fun expression v => expression.holds v = true) expressions values := by
  obtain ⟨texts, types, vs, hasTexts, read, yielded, restored⟩ :=
    exists_of_decodeParameters decoded
  exact Description.holds_of_denotes denote hasTexts read yielded restored

end Codec

end ContractBindings
