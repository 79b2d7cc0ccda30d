import ContractBindings.Fault
import ContractBindings.Number.Rounding
import ContractBindings.Value

namespace ContractBindings

/-!
# Checking documents

A document is read into a typed value field by field.  All issues of a document
are collected, each with the path of keys and indexes that leads to it; a fault
stops the whole reading and hides every issue.
-/

/-- One step of a path into a document. -/
inductive Segment where
  | key (name : Text)
  | index (place : Nat)
  deriving DecidableEq, Repr

/-- What is wrong at one place of a document. -/
inductive IssueKind where
  | missing
  | notText
  | notUnicode
  | notBoolean
  | notBooleanSpelling
  | notModel
  | notMapping
  | notTuple
  | notList
  | wrongTag
  | unknownKey
  /-- The value stands below too many others of its kind. -/
  | tooDeep
  /-- The value has the right kind and is refused for the reason given. -/
  | refused (reason : Text)
  deriving DecidableEq, Repr

/-- Something wrong, and where. -/
structure Issue where
  kind : IssueKind
  path : List Segment
  deriving DecidableEq, Repr

/-- The outcome of reading a document or a part of it. -/
inductive Checked (α : Type) where
  | accepted (value : α)
  | refused (issues : List Issue)
  | stopped (fault : Fault)
  deriving DecidableEq, Repr

namespace Checked

/-- An issue at the place that is being read. -/
def issue (kind : IssueKind) : Checked α :=
  .refused [⟨kind, []⟩]

/-- The outcome with a function applied to an accepted value. -/
def map (f : α → β) : Checked α → Checked β
  | .accepted value => .accepted (f value)
  | .refused issues => .refused issues
  | .stopped fault => .stopped fault

/-- Applies an outcome to the next one.  The issues of both are kept. -/
def apply : Checked (α → β) → Checked α → Checked β
  | .accepted f, argument => argument.map f
  | .refused issues, .accepted _ => .refused issues
  | .refused issues, .refused more => .refused (issues ++ more)
  | .refused _, .stopped fault => .stopped fault
  | .stopped fault, _ => .stopped fault

/-- Continues with an accepted value. -/
def bind : Checked α → (α → Checked β) → Checked β
  | .accepted value, next => next value
  | .refused issues, _ => .refused issues
  | .stopped fault, _ => .stopped fault

/-- Moves all issues below a step. -/
def within (segment : Segment) : Checked α → Checked α
  | .refused issues => .refused (issues.map fun i => { i with path := segment :: i.path })
  | other => other

/-- All outcomes as one, with the issues of all. -/
def all : List (Checked α) → Checked (List α)
  | [] => .accepted []
  | first :: rest => ((first.map List.cons).apply (all rest))

/-- All outcomes as one, the issues of each below its index. -/
def indexed (outcomes : List (Checked α)) : Checked (List α) :=
  all (outcomes.mapIdx fun place outcome => outcome.within (.index place))

/-- The outcomes up to the first that is not accepted. -/
def firstBad : List (Checked α) → Checked (List α)
  | [] => .accepted []
  | first :: rest => first.bind fun value => (firstBad rest).map (value :: ·)

end Checked

/-!
## Reading scalars
-/

namespace Value

/-- Reads a text. -/
def readText : Value → Checked Text
  | .text t => .accepted t
  | _ => .issue .notText

/-- Reads a text or null. -/
def readOptionalText : Value → Checked (Option Text)
  | .null => .accepted none
  | v => v.readText.map some

/-- The spellings of false, in small letters. -/
def falseSpellings : List Text :=
  ["0", "off", "f", "false", "n", "no"]

/-- The spellings of true, in small letters. -/
def trueSpellings : List Text :=
  ["1", "on", "t", "true", "y", "yes"]

/-- Whether an integer fits into 64 bits with a sign. -/
def fitsWord (i : Int) : Bool :=
  -(twoTo 63 : Int) ≤ i && i < twoTo 63

/-- Reads a truth value: one of the booleans, zero or one, or a spelling in any
case. -/
def readBool : Value → Checked Bool
  | .bool b => .accepted b
  | .int i =>
      if i = 0 then .accepted false
      else if i = 1 then .accepted true
      else if fitsWord i then .issue .notBooleanSpelling
      else .issue .notBoolean
  | .float x =>
      match x.toInt? with
      | none => .issue .notBoolean
      | some i =>
          if i = 0 then .accepted false
          else if i = 1 then .accepted true
          else if i.natAbs < twoTo 63 then .issue .notBooleanSpelling
          else .issue .notBoolean
  | .text t =>
      if ! Text.isScalar t then .issue .notUnicode
      else if falseSpellings.contains (Text.toAsciiLower t) then .accepted false
      else if trueSpellings.contains (Text.toAsciiLower t) then .accepted true
      else .issue .notBooleanSpelling
  | _ => .issue .notBoolean

end Value

namespace Entries

/-- Reads the value under a key, or takes the default where there is none. -/
def readField (entries : Entries) (name : Text) (default : α) (read : Value → Checked α) :
    Checked α :=
  match entries.get? name with
  | some v => (read v).within (.key name)
  | none => .accepted default

/-- Reads the value under a key that has to be there. -/
def readRequired (entries : Entries) (name : Text) (read : Value → Checked α) : Checked α :=
  match entries.get? name with
  | some v => (read v).within (.key name)
  | none => (Checked.issue .missing).within (.key name)

/-- Reads the value under a key or, where it has no entry, under its other name. -/
def readAliased (entries : Entries) (name other : Text) (default : α)
    (read : Value → Checked α) : Checked α :=
  match entries.get? name with
  | some v => (read v).within (.key name)
  | none => entries.readField other default read

end Entries

end ContractBindings
