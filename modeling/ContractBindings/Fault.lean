namespace ContractBindings

/-!
# Faults

Values that come from outside are used before anything has checked their
shape, and some of them ask for more than can be followed, stored or read back.
A fault says in which way a value did not allow its use.  It carries no text:
whoever reports a fault names its kind and nothing else.
-/

/-- Why a value that nothing has checked could not be used. -/
inductive Fault where
  /-- A mapping has no entry under a required key. -/
  | missingKey
  /-- A value of another kind was needed. -/
  | wrongKind
  /-- A mapping was needed to look something up in. -/
  | noMember
  /-- A sequence has no element in a required place. -/
  | noElement
  /-- A length is too large to be counted in a machine word. -/
  | overflow
  /-- A value of the right kind is out of range. -/
  | badValue
  /-- A text with a lone surrogate has no encoding. -/
  | unencodable
  /-- The bytes of a file are no encoding of a text. -/
  | undecodable
  /-- A type has more array suffixes, or a document more levels, than are followed. -/
  | tooNested
  /-- A size in the text of a type has too many digits to be read. -/
  | unreadableSize
  /-- The text of a module does not follow the grammar of its language. -/
  | unreadableModule
  /-- A line of a module is indented deeper than the statement before it allows. -/
  | unexpectedIndent
  /-- The home directory of the user cannot be told. -/
  | noHome
  /-- A path, or one of its parts, is longer than the names of files can be. -/
  | longName
  /-- There is no memory for so many bytes. -/
  | outOfMemory
  deriving DecidableEq, Repr

/-!
## How much can be followed

Types and documents are followed by calls in each other, for which the interpreter has a stack
of a thousand places.  How many levels fit depends on how much of the stack is in use when the
following starts.  The numbers below are assumptions about this: they hold for calls from the
top of a program, and a caller that is deeper in calls has fewer levels.  What is proved up to
these numbers holds of such a caller up to his smaller ones.
-/

namespace TypeForm

/-- The number of parentheses in the text of a type that are assumed to be followed. -/
def greatestNesting : Nat := 140

end TypeForm

namespace AbiType

/-- The number of arrays and tuples in each other whose values are assumed to be followed. -/
def greatestLevels : Nat := 190

end AbiType

namespace TypeExpression

/-- The number of array suffixes that are assumed to be followed when a type is mapped.  Those
of one type are counted: the tuples around it, of which there are a few, are not. -/
def greatestNesting : Nat := 490

end TypeExpression

namespace Json

/-- The number of arrays and objects in each other that are assumed to be followed. -/
def greatestDepth : Nat := 970

end Json

end ContractBindings
