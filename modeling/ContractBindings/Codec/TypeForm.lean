import ContractBindings.Fault
import ContractBindings.Text.Basic

namespace ContractBindings

/-!
# Written types

The form of a type as a text has it: a word with a size, or with two sizes and
an x between them, or a parenthesized list of types, with array suffixes behind
it.  Sizes are digits without leading zeros.  A form says nothing about whether
there is a type of that name or of that size.
-/

/-- Why a text has no form. -/
inductive FormFailure where
  | malformed
  /-- Too many parentheses stand in each other. -/
  | tooNested
  deriving DecidableEq, Repr

/-- What follows the word of a type. -/
inductive Sizes where
  | none
  | one (size : Text)
  | two (bits places : Text)

/-- A type as it is written. -/
inductive TypeForm where
  | word (letters : Text) (sizes : Sizes)
  /-- A form with an array suffix, empty or with a size. -/
  | array (element : TypeForm) (size : Option Text)
  | tuple (members : List TypeForm)

namespace Sizes

/-- All sizes, in order. -/
def toList : Sizes → List Text
  | .none => []
  | .one size => [size]
  | .two bits places => [bits, places]

end Sizes

namespace TypeForm

mutual

/-- All sizes in a form, in order. -/
def sizes : TypeForm → List Text
  | .word _ sizes => sizes.toList
  | .array element size => element.sizes ++ size.toList
  | .tuple members => sizesOfAll members

/-- All sizes in a list of forms, in order. -/
def sizesOfAll : List TypeForm → List Text
  | [] => []
  | member :: members => member.sizes ++ sizesOfAll members

end

mutual

/-- The number of arrays and tuples that stand in each other. -/
def levels : TypeForm → Nat
  | .word _ _ => 0
  | .array element _ => element.levels + 1
  | .tuple members => levelsOfAll members + 1

/-- The greatest number of levels in a list of forms. -/
def levelsOfAll : List TypeForm → Nat
  | [] => 0
  | member :: members => max member.levels (levelsOfAll members)

end

/-- Reads a size, if one stands at the beginning: digits of which the first is
not zero. -/
def readSize (t : Text) : Option (Text × Text) :=
  match t.takeWhile CodePoint.isAsciiDigit with
  | [] => none
  | first :: digits =>
      if first = '0' then none
      else some (first :: digits, t.dropWhile CodePoint.isAsciiDigit)

/-- Reads the sizes behind a word. -/
def readSizes (t : Text) : Sizes × Text :=
  match readSize t with
  | none => (.none, t)
  | some (size, rest) =>
      match (Text.dropStart? rest "x").bind readSize with
      | some (places, rest) => (.two size places, rest)
      | none => (.one size, rest)

/-- Reads array suffixes, the innermost array first. -/
def readSuffixes : (fuel : Nat) → (element : TypeForm) → (t : Text) → TypeForm × Text
  | 0, element, t => (element, t)
  | fuel + 1, element, t =>
      match Text.dropStart? t "[" with
      | none => (element, t)
      | some rest =>
          match Text.dropStart? rest "]" with
          | some rest => readSuffixes fuel (.array element none) rest
          | none =>
              match readSize rest with
              | none => (element, t)
              | some (size, rest) =>
                  match Text.dropStart? rest "]" with
                  | some rest => readSuffixes fuel (.array element (some size)) rest
                  | none => (element, t)

/-- Reads a word with its sizes. -/
def readWord (t : Text) : Except FormFailure (TypeForm × Text) :=
  match t.takeWhile CodePoint.isAsciiLetter with
  | [] => .error .malformed
  | first :: letters =>
      let (sizes, rest) := readSizes (t.dropWhile CodePoint.isAsciiLetter)
      .ok (.word (first :: letters) sizes, rest)

mutual

/-- Reads a form from the beginning of a text, where there is room for so many
parentheses in each other.  The fuel bounds the steps. -/
def readForm : (fuel room : Nat) → (t : Text) → Except FormFailure (TypeForm × Text)
  | 0, _, _ => .error .malformed
  | fuel + 1, room, t =>
      match Text.dropStart? t "(" with
      | none => (readWord t).map fun (form, rest) => readSuffixes rest.length form rest
      | some rest =>
          if room = 0 then .error .tooNested
          else
            (readMembers fuel (room - 1) rest).map fun (members, rest) =>
              readSuffixes rest.length (.tuple members) rest

/-- Reads the members of a tuple up to the closing parenthesis. -/
def readMembers : (fuel room : Nat) → (t : Text) → Except FormFailure (List TypeForm × Text)
  | 0, _, _ => .error .malformed
  | fuel + 1, room, t =>
      match readForm fuel room t with
      | .error failure => .error failure
      | .ok (member, rest) =>
          match Text.dropStart? rest ")" with
          | some rest => .ok ([member], rest)
          | none =>
              match Text.dropStart? rest "," with
              | none => .error .malformed
              | some rest =>
                  (readMembers fuel room rest).map fun (members, rest) =>
                    (member :: members, rest)

end

/-- The form of a whole text.  A parenthesis takes two steps to read. -/
def ofText (t : Text) : Except FormFailure TypeForm :=
  match readForm (2 * t.length + 1) greatestNesting t with
  | .error failure => .error failure
  | .ok (form, rest) => if rest.isEmpty then .ok form else .error .malformed

end TypeForm

end ContractBindings
