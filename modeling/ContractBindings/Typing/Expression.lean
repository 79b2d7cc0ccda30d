import ContractBindings.Hash.Blake2b
import ContractBindings.Text.Hex

namespace ContractBindings

/-!
# Type expressions

Generated signatures are annotated with type expressions.  A tuple becomes a
record, which is defined once under a name derived from its structure: the keys
of its fields with the texts of their types.
-/

/-- A type annotation in the generated module. -/
inductive TypeExpression where
  /-- A type with a name of its own. -/
  | named (name : Text)
  /-- An integer type over the type of large integers. -/
  | branded (name : Text)
  | list (element : TypeExpression)
  | record (fields : List (Text × TypeExpression))

/-- The fields of a record, in order. -/
abbrev RecordFields := List (Text × TypeExpression)

namespace TypeExpression

/-- The name of a record with the given structure text. -/
def recordName (structureText : Text) : Text :=
  "Record_" ++ Octets.toHex (Blake2b.digest 8 (Text.utf8 structureText))

/-- The texts of fields, between braces and with commas. -/
def structureText (fields : List Text) : Text :=
  "\x7b" ++ Text.join "," fields ++ "\x7d"

mutual

/-- The text of a type expression. -/
def render : TypeExpression → Text
  | .named name => name
  | .branded name => name ++ "[TLargeInteger]"
  | .list element => "List[" ++ element.render ++ "]"
  | .record fields => recordName (structureText (renderFields fields))

/-- The texts of fields, each a key, a colon and a type. -/
def renderFields : List (Text × TypeExpression) → List Text
  | [] => []
  | (key, type) :: fields => (key ++ ":" ++ type.render) :: renderFields fields

end

mutual

/-- The records that a type expression refers to, inner ones first. -/
def records : TypeExpression → List RecordFields
  | .named _ => []
  | .branded _ => []
  | .list element => element.records
  | .record fields => recordsOfFields fields ++ [fields]

/-- The records that the types of fields refer to. -/
def recordsOfFields : List (Text × TypeExpression) → List RecordFields
  | [] => []
  | (_, type) :: fields => type.records ++ recordsOfFields fields

end

mutual

/-- Equality of type expressions, decided part by part. -/
def decideEq : (a b : TypeExpression) → Decidable (a = b)
  | .named m, .named n => decidable_of_iff (m = n) (by simp)
  | .branded m, .branded n => decidable_of_iff (m = n) (by simp)
  | .list a, .list b =>
      match decideEq a b with
      | isTrue same => isTrue (by rw [same])
      | isFalse other => isFalse (by simpa using other)
  | .record fields, .record others =>
      match decideFieldsEq fields others with
      | isTrue same => isTrue (by rw [same])
      | isFalse other => isFalse (by simpa using other)
  | .named _, .branded _ => isFalse (by simp)
  | .named _, .list _ => isFalse (by simp)
  | .named _, .record _ => isFalse (by simp)
  | .branded _, .named _ => isFalse (by simp)
  | .branded _, .list _ => isFalse (by simp)
  | .branded _, .record _ => isFalse (by simp)
  | .list _, .named _ => isFalse (by simp)
  | .list _, .branded _ => isFalse (by simp)
  | .list _, .record _ => isFalse (by simp)
  | .record _, .named _ => isFalse (by simp)
  | .record _, .branded _ => isFalse (by simp)
  | .record _, .list _ => isFalse (by simp)

/-- Equality of the fields of two records. -/
def decideFieldsEq : (a b : List (Text × TypeExpression)) → Decidable (a = b)
  | [], [] => isTrue rfl
  | [], _ :: _ => isFalse (by simp)
  | _ :: _, [] => isFalse (by simp)
  | (key, type) :: fields, (otherKey, otherType) :: others =>
      match decideEq type otherType, decideFieldsEq fields others with
      | isTrue sameType, isTrue sameFields =>
          decidable_of_iff (key = otherKey) (by simp [sameType, sameFields])
      | isFalse other, _ => isFalse (by simp [other])
      | _, isFalse other => isFalse (by simp [other])

end

instance : DecidableEq TypeExpression := decideEq

end TypeExpression

namespace RecordFields

/-- The structure of a record as a text. -/
def structureText (fields : RecordFields) : Text :=
  TypeExpression.structureText (TypeExpression.renderFields fields)

/-- The name under which a record is defined. -/
def name (fields : RecordFields) : Text :=
  TypeExpression.recordName (structureText fields)

/-- Whether the structure of a record has an encoding, as its name requires. -/
def isNameable (fields : RecordFields) : Bool :=
  Text.isScalar (structureText fields)

end RecordFields

end ContractBindings
