import ContractBindings.Text.Digit

namespace ContractBindings

/-!
# Array suffixes

A type may end in array suffixes, brackets with decimal digits or nothing
between them.  The last suffix is the outermost array.  One line break may
follow a suffix; none may stand before it.
-/

namespace Text

/-- A text without the one line break that it may end with. -/
def dropLineBreak (t : Text) : Text :=
  (dropEnd? t "\n").getD t

/-- What stands before the last array suffix: brackets with digits or nothing
between them.  No line break may stand there. -/
def dropArraySuffix? (t : Text) : Option Text :=
  match (dropLineBreak t).reverse with
  | [] => none
  | last :: rest =>
      if last = ']' then
        match rest.dropWhile CodePoint.isDecimalDigit with
        | [] => none
        | opening :: before =>
            if opening = '[' ∧ (before.any (· = '\n')) = false then some before.reverse
            else none
      else none

/-- What stands before all array suffixes, and how many there are.  The fuel
bounds the suffixes to be looked for. -/
def dropArraySuffixes : (fuel : Nat) → (t : Text) → Text × Nat
  | 0, t => (t, 0)
  | fuel + 1, t =>
      match dropArraySuffix? t with
      | none => (t, 0)
      | some element =>
          let (base, count) := dropArraySuffixes fuel element
          (base, count + 1)

/-- The base of a type and the number of its array suffixes. -/
def arrayBase (t : Text) : Text × Nat :=
  dropArraySuffixes t.length t

end Text

end ContractBindings
