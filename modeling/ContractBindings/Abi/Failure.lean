import ContractBindings.Fault
import ContractBindings.Value

namespace ContractBindings

/-!
# Interfaces that cannot be bound

Bindings are generated for a part of all interfaces.  A rejection says what
about a parameter is outside that part, for which function or event.
-/

/-- The function or event of a contract that is being bound. -/
structure Place where
  contract : Text
  entity : Text
  deriving DecidableEq, Repr

/-- What about a parameter rules bindings out. -/
inductive Objection where
  /-- A tuple without components. -/
  | malformedTuple (type : Text)
  /-- A number with a fixed point. -/
  | fixedPoint
  /-- A function as a parameter. -/
  | functionType
  /-- A type outside the grammar of types. -/
  | unrecognized (type : Text)
  /-- One of several results that has no name. -/
  | unnamedResult
  deriving DecidableEq, Repr

/-- An objection, with the place and the description of the parameter. -/
structure Rejection where
  objection : Objection
  place : Option Place
  parameter : Value

namespace Rejection

/-- The wording of an objection. -/
def wording : Objection → Text
  | .malformedTuple type => "Expected components when type is " ++ type
  | .fixedPoint => "Fixed-point numbers are not supported"
  | .functionType => "Function parameters are not supported"
  | .unrecognized type => "Unrecognized type " ++ type
  | .unnamedResult => "Multiple return values must all be named"

/-- The message of a rejection. -/
def message (rejection : Rejection) : Text :=
  let inPlace : Text := match rejection.place with
    | some place => " in " ++ place.contract ++ "." ++ place.entity
    | none => ""
  wording rejection.objection ++ inPlace ++ ": " ++ rejection.parameter.literal

end Rejection

/-- Why no binding was generated. -/
inductive BindingFailure where
  | rejected (rejection : Rejection)
  /-- The suffix of the methods that execute calls is empty. -/
  | emptySuffix
  /-- No number of underscores makes a name free. -/
  | noFreeName
  | fault (fault : Fault)

namespace BindingFailure

/-- The message for an empty suffix. -/
def emptySuffixMessage : Text :=
  "Local method suffix must not be empty"

end BindingFailure

end ContractBindings
