import ContractBindings.Binding.Function
import ContractBindings.Proofs.Steps

namespace ContractBindings

/-!
# Steps of a binder

A binder outlines a function, finds a name for its methods, takes this name, and hashes the
signature.  The step lemma `FunctionBinder.attempt_bind` says all that can come of it, and
`FunctionBinder.outlines_of_outline` what an outline consists of.
-/

namespace FunctionBinder

/-- What the outline of a function consists of. -/
structure Outlines (place : Place) (function : FunctionEntry) (outlined : Outline)
    (types names : List Text) (expressions : List TypeExpression) : Prop where
  canonical : Parameter.canonicalTypes (some place) function.inputs = .ok types
  signature : outlined.signature = signatureOf function.name types
  named : Names.parameterNames? (function.inputs.map (·.name)) = some names
  typed : function.inputs.mapM (TypeExpression.ofParameter (some place) []) = .ok expressions
  parameters :
    outlined.parameters = (names.zip (expressions.zip function.inputs)).map
      fun (name, expression, parameter) => ⟨name, expression, parameter.type⟩
  returns : TypeExpression.ofResults (some place) function.outputs = .ok outlined.returnType

theorem outlines_of_outline
    {place : Place}
    {function : FunctionEntry}
    {outlined : Outline}
    (isOutline : outline place function = .ok outlined) :
    ∃ types names expressions, Outlines place function outlined types names expressions := by
  rw [outline] at isOutline
  obtain ⟨signature, signed, isOutline⟩ := bind_eq_ok_iff.mp isOutline
  simp only [functionSignature, mapError_eq_ok_iff, bind_eq_ok_iff, pure_eq_ok_iff] at signed
  obtain ⟨types, canonical, rfl⟩ := signed
  split at isOutline
  case h_1 names named =>
    simp only [bind_eq_ok_iff, pure_eq_ok_iff] at isOutline
    obtain ⟨_, ⟨⟩, expressions, typed, returnType, returns, rfl⟩ := isOutline
    exact ⟨types, names, expressions, canonical, rfl, named, typed, rfl, returns⟩
  case h_2 =>
    cases isOutline

/-- A binder that has taken one more base. -/
def taking (binder : FunctionBinder) (base : Text) : FunctionBinder :=
  { binder with taken := base :: (base ++ binder.suffix) :: binder.taken }

/-- The binding of a function with a name and a hash. -/
def bindingOf (binder : FunctionBinder) (function : FunctionEntry) (outlined : Outline)
    (base : Text) (selector : Octets) : FunctionBinding where
  abiName := function.name
  signature := outlined.signature
  selector
  parameters := outlined.parameters
  returnType := outlined.returnType
  returnShape := .ofCount function.outputs.length
  inputs := function.inputs
  outputs := function.outputs
  localMethod := base ++ binder.suffix
  remoteMethod := if function.constant then none else some base
  payable := function.payable

/-- What comes of an attempt to bind a function. -/
inductive Attempt (binder : FunctionBinder) (function : FunctionEntry) :
    Except BindingFailure FunctionBinding × FunctionBinder × List LogRecord → Prop where
  /-- The parameters or the results are refused. -/
  | refused
      {failure : BindingFailure}
      (isRefused : outline ⟨binder.contract, function.name⟩ function = .error failure) :
      Attempt binder function (.error failure, binder, [])
  | nameless
      {outlined : Outline}
      (isOutline : outline ⟨binder.contract, function.name⟩ function = .ok outlined)
      (notFound : Names.methodName? binder.suffix binder.taken function.name = none) :
      Attempt binder function (.error .noFreeName, binder, [])
  /-- The names are taken before it turns out that the signature has no hash. -/
  | unhashed
      {outlined : Outline}
      {base : Text}
      {fault : Fault}
      (isOutline : outline ⟨binder.contract, function.name⟩ function = .ok outlined)
      (found : Names.methodName? binder.suffix binder.taken function.name = some base)
      (notHashed : ContractBindings.selector outlined.signature = .error fault) :
      Attempt binder function
        (.error (.fault fault), binder.taking base, binder.renamed function.name base)
  | bound
      {outlined : Outline}
      {base : Text}
      {selector : Octets}
      (isOutline : outline ⟨binder.contract, function.name⟩ function = .ok outlined)
      (found : Names.methodName? binder.suffix binder.taken function.name = some base)
      (hashed : ContractBindings.selector outlined.signature = .ok selector) :
      Attempt binder function
        (.ok (binder.bindingOf function outlined base selector), binder.taking base,
          binder.renamed function.name base)

/-- A function is bound if it has an outline, a name and a hash. -/
theorem bind_of_hashed
    {binder : FunctionBinder}
    {function : FunctionEntry}
    {outlined : Outline}
    {base : Text}
    {selector : Octets}
    (isOutline : outline ⟨binder.contract, function.name⟩ function = .ok outlined)
    (found : Names.methodName? binder.suffix binder.taken function.name = some base)
    (hashed : ContractBindings.selector outlined.signature = .ok selector) :
    binder.bind function =
      (.ok (binder.bindingOf function outlined base selector), binder.taking base,
        binder.renamed function.name base) := by
  simp only [bind, isOutline, found, hashed, bindingOf, taking]

/-- An attempt comes to one of these. -/
theorem attempt_bind
    (binder : FunctionBinder)
    (function : FunctionEntry) :
    Attempt binder function (binder.bind function) := by
  cases isOutline : outline ⟨binder.contract, function.name⟩ function with
  | error failure =>
      simp only [bind, isOutline]
      exact .refused isOutline
  | ok outlined =>
      cases found : Names.methodName? binder.suffix binder.taken function.name with
      | none =>
          simp only [bind, isOutline, found]
          exact .nameless isOutline found
      | some base =>
          cases hashed : ContractBindings.selector outlined.signature with
          | error fault =>
              simp only [bind, isOutline, found, hashed]
              exact .unhashed isOutline found hashed
          | ok selector =>
              rw [bind_of_hashed isOutline found hashed]
              exact .bound isOutline found hashed

end FunctionBinder

end ContractBindings
