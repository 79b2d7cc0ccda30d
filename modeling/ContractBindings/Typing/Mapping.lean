import ContractBindings.Abi.ArraySuffix
import ContractBindings.Abi.Failure
import ContractBindings.Abi.Parameter
import ContractBindings.Typing.Expression

namespace ContractBindings

/-!
# From parameter types to type expressions

A parameter type is a base followed by array suffixes, which become lists
around the expression of the base.  A line break after a suffix or after the
base does not count.  Numbers in types are written in any decimal digits.
-/

namespace TypeExpression

/-- A number of lists around a type expression. -/
def listed (element : TypeExpression) : (count : Nat) → TypeExpression
  | 0 => element
  | count + 1 => .list (listed element count)

/-- The widest integer that is a native integer of the generated module. -/
def maxNativeWidth : Nat := 52

/-- The most digits that a width may be written with. -/
def maxWidthDigits : Nat := 4300

/-- The type of integers of a width. -/
def integer (isUnsigned : Bool) (width : Nat) : TypeExpression :=
  if width ≤ maxNativeWidth then .named "int"
  else .branded ((if isUnsigned then "UInt" else "Int") ++ Text.ofNat width)

/-- The digits of an integer type, and whether it is unsigned. -/
def integerDigits? (base : Text) : Option (Bool × Text) :=
  let (isUnsigned, rest) := match Text.dropStart? base "u" with
    | some rest => (true, rest)
    | none => (false, base)
  match Text.dropStart? rest "int" with
  | some digits =>
      if digits.all CodePoint.isDecimalDigit then some (isUnsigned, digits) else none
  | none => none

/-- The digits of a type of byte strings of a fixed size. -/
def bytesDigits? (base : Text) : Option Text :=
  match Text.dropStart? base "bytes" with
  | some digits =>
      if digits ≠ [] ∧ digits.all CodePoint.isDecimalDigit then some digits else none
  | none => none

/-- A number with a fixed point, of any width and number of places. -/
def isFixedPoint (base : Text) : Bool :=
  let rest := (Text.dropStart? base "u").getD base
  match Text.dropStart? rest "fixed" with
  | some sizes =>
      match sizes.span CodePoint.isDecimalDigit with
      | (_ :: _, mark :: digit :: digits) =>
          decide (mark = 'x') && (digit :: digits).all CodePoint.isDecimalDigit
      | _ => false
  | none => false

/-- What a base stands for. -/
inductive Base where
  | integer (isUnsigned : Bool) (digits : Text)
  | plain (expression : TypeExpression)
  | tuple
  | objection (objection : Objection)

/-- Tells the bases apart. -/
def readBase (type : Text) : Base :=
  let base := Text.dropLineBreak type
  match integerDigits? base with
  | some (isUnsigned, digits) => .integer isUnsigned digits
  | none =>
      if base = "address" then .plain (.named "Address")
      else if base = "bool" then .plain (.named "bool")
      else
        match bytesDigits? base with
        | some digits => .plain (.named ("Bytes" ++ digits))
        | none =>
            if base = "string" then .plain (.named "str")
            else if base = "bytes" then .plain (.named "Bytes")
            else if base = "tuple" then .tuple
            else if isFixedPoint base then .objection .fixedPoint
            else if base = "function" then .objection .functionType
            else .objection (.unrecognized type)

mutual

/-- The type expression of a parameter.  The marks complete the description
of the parameter in a rejection. -/
def ofParameter (place : Option Place) (marks : Entries) :
    Parameter → Except BindingFailure TypeExpression
  | ⟨name, type, components, internalType⟩ =>
      let (base, count) := Text.arrayBase type
      let reject (objection : Objection) : Except BindingFailure TypeExpression :=
        .error <| .rejected ⟨objection, place,
          Parameter.describeWith ⟨name, base, components, internalType⟩ marks⟩
      if greatestNesting < count then .error (.fault .tooNested)
      else match readBase base with
      | .integer isUnsigned digits =>
          if maxWidthDigits < digits.length then .error (.fault .badValue)
          else
            let width := match digits with
              | [] => 256
              | digits => (Text.decimalValue? digits).getD 0
            .ok (listed (integer isUnsigned width) count)
      | .plain expression => .ok (listed expression count)
      | .tuple => do
          match ← ofComponents place components with
          | [] => reject (.malformedTuple base)
          | fields => .ok (listed (.record fields) count)
      | .objection objection => reject objection

/-- The fields of a tuple, of which there may be none. -/
def ofComponents (place : Option Place) :
    Option (List Parameter) → Except BindingFailure RecordFields
  | none => .ok []
  | some components => ofParameters place 1 components

/-- The fields of parameters, those without a name numbered from `next` on. -/
def ofParameters (place : Option Place) :
    (next : Nat) → List Parameter → Except BindingFailure RecordFields
  | _, [] => .ok []
  | next, parameter :: rest => do
      let type ← ofParameter place [] parameter
      if parameter.name.isEmpty then
        return (Parameter.standIn next, type) :: (← ofParameters place (next + 1) rest)
      else
        return (parameter.name, type) :: (← ofParameters place next rest)

end

/-- The type expression of the results of a function.  Several results form a
record, for which all of them need a name. -/
def ofResults (place : Option Place) :
    List Parameter → Except BindingFailure TypeExpression
  | [] => .ok (.named "None")
  | [result] => ofParameter place [] result
  | results =>
      match results.find? (·.name.isEmpty) with
      | some unnamed => .error <| .rejected ⟨.unnamedResult, place, unnamed.describe⟩
      | none => do
          let types ← results.mapM (ofParameter place [])
          return .record ((results.map (·.name)).zip types)

end TypeExpression

end ContractBindings
