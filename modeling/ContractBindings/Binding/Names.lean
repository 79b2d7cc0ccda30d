import ContractBindings.Text.Basic

namespace ContractBindings

/-!
# Names in the generated module

Names of contracts, functions and parameters become identifiers.  A name that
clashes with a keyword, with a name of the module, with a member of the base
class of contracts or with a name given before gets underscores appended until
it is free.
-/

namespace Names

/-- The reserved words of the language of the generated module. -/
def keywords : List Text :=
  (["False", "None", "True", "and", "as", "assert", "async", "await", "break", "class",
    "continue", "def", "del", "elif", "else", "except", "finally", "for", "from", "global",
    "if", "import", "in", "is", "lambda", "nonlocal", "not", "or", "pass", "raise", "return",
    "try", "while", "with", "yield"] : List String).map Text.ofString

/-- The widths of integer types, in bits. -/
def integerWidths : List Nat :=
  (List.range 32).map fun i => 8 * (i + 1)

/-- The sizes of byte string types. -/
def byteSizes : List Nat :=
  (List.range 32).map (· + 1)

/-- The names that the generated module imports or defines itself. -/
def moduleNames : List Text :=
  (["Any", "Dict", "List", "Optional", "TypeVar", "Union", "Annotated", "Literal", "TypedDict",
    "Brand", "ByteArray", "Contract", "DecodedEvent", "Dependencies", "EventDescription",
    "ReturnShape", "TLargeInteger", "Bytes", "Address", "SignatureHash", "NumberLike",
    "BytesLike", "Event", "event_descriptions", "event_types", "annotations", "bytes", "int",
    "str", "bool"] : List String).map Text.ofString ++
  integerWidths.map (fun width => "Int" ++ Text.ofNat width) ++
  integerWidths.map (fun width => "UInt" ++ Text.ofNat width) ++
  byteSizes.map (fun size => "Bytes" ++ Text.ofNat size)

/-- The members of the base class of contracts. -/
def contractMembers : List Text :=
  ["_address", "_dependencies", "_event_descriptions", "_event_types", "_build_transaction",
    "_encode_method", "_local_call", "_remote_call", "address", "dependencies"]

/-- The parameters that every generated method has. -/
def methodParameters : List Text :=
  ["self", "attached_value"]

/-- A small hexadecimal digit. -/
def isSmallHexDigit (c : CodePoint) : Bool :=
  c.isAsciiDigit || (0x61 ≤ c.val && c.val ≤ 0x66)

/-- The form of the names of records, a line break at the end allowed. -/
def isRecordName (name : Text) : Bool :=
  match Text.dropStart? ((Text.dropEnd? name "\n").getD name) "Record_" with
  | some digits => digits.length = 16 && digits.all isSmallHexDigit
  | none => false

/-- Two underscores on either side, and no third one at the end. -/
def isDunder (name : Text) : Bool :=
  Text.startsWith name "__" && Text.endsWith name "__" && ! Text.endsWith name "___"

/-- A name that no class of the module may have, given the names of the others. -/
def clashesAsClass (taken : List Text) (name : Text) : Bool :=
  moduleNames.contains name || taken.contains name || keywords.contains name ||
    isRecordName name

/-- A name that no method of a contract may have, given the names of the others. -/
def clashesAsMethod (taken : List Text) (name : Text) : Bool :=
  moduleNames.contains name || contractMembers.contains name || taken.contains name ||
    keywords.contains name || isDunder name

/-- A name that no parameter of a method may have, given the names of the others. -/
def clashesAsParameter (taken : List Text) (name : Text) : Bool :=
  moduleNames.contains name || methodParameters.contains name || taken.contains name ||
    keywords.contains name

/-- The first name without a clash among the given one and those with
underscores appended, as far as the bound allows. -/
def appendUnderscores (clashes : Text → Bool) : (bound : Nat) → (name : Text) → Option Text
  | 0, _ => none
  | bound + 1, name =>
      if clashes name then appendUnderscores clashes bound (name ++ "_") else some name

/-- A number of underscores past which no name clashes any more with one that
is taken or reserved. -/
def bound (taken : List Text) : Nat :=
  (taken.foldl (fun longest name => max longest name.length) 0) + 32

/-- A name in which dollar signs became underscores, with the least number of
underscores appended that makes it free. -/
def free? (clashes : Text → Bool) (taken : List Text) (name : Text) : Option Text :=
  appendUnderscores clashes (bound taken) (Text.replace name '$' '_')

/-- The name of a class. -/
def className? (taken : List Text) (name : Text) : Option Text :=
  free? (clashesAsClass taken) taken name

/-- The name of a method, which has to be free also with the suffix behind it. -/
def methodName? (suffix : Text) (taken : List Text) (name : Text) : Option Text :=
  free? (fun n => clashesAsMethod taken n || clashesAsMethod taken (n ++ suffix)) taken name

/-- A parameter name without one leading underscore, or one made of its place
where nothing is left. -/
def parameterStem (place : Nat) (name : Text) : Text :=
  match (Text.dropStart? name "_").getD name with
  | [] => "arg" ++ Text.ofNat place
  | stem => stem

/-- The names of the parameters from a place on, given the names before it. -/
def parameterNamesFrom? : (place : Nat) → (taken names : List Text) → Option (List Text)
  | _, _, [] => some []
  | place, taken, name :: names => do
      let own ← free? (clashesAsParameter taken) taken (parameterStem place name)
      let others ← parameterNamesFrom? (place + 1) (taken ++ [own]) names
      return own :: others

/-- The names of the parameters of a method, in order. -/
def parameterNames? (names : List Text) : Option (List Text) :=
  parameterNamesFrom? 0 [] names

/-- The name that a name inside of a class stands for.  Two underscores in front and
not behind make it private to the class. -/
def memberName (className name : Text) : Text :=
  if Text.startsWith name "__" && ! Text.endsWith name "__" then
    match className.dropWhile fun c => c = ('_' : CodePoint) with
    | [] => name
    | stem => "_" ++ stem ++ name
  else name

end Names

end ContractBindings
