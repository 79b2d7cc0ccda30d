import ContractBindings.Source.Module
import ContractBindings.Text.Identifier

namespace ContractBindings

/-!
# Reading a generated module back

Names and documentation are copied into a module as they are, so not every
module can be read back: names have to be identifiers, and documentation has to
stay one text between its triple quotes.  Annotations and descriptions have
brackets in each other, and only so many of them are read.
-/

namespace Value

mutual

/-- How many brackets the literal of a value has in each other. -/
def brackets : Value → Nat
  | .list vs => bracketsOfAll vs + 1
  | .tuple vs => bracketsOfAll vs + 1
  | .dict entries => bracketsOfEntries entries + 1
  | .decimal _ => 1
  | _ => 0

def bracketsOfAll : List Value → Nat
  | [] => 0
  | v :: vs => max v.brackets (bracketsOfAll vs)

def bracketsOfEntries : List (Key × Value) → Nat
  | [] => 0
  | (_, v) :: entries => max v.brackets (bracketsOfEntries entries)

end

end Value

namespace TypeExpression

/-- How many brackets an annotation has in each other. -/
def brackets : TypeExpression → Nat
  | .named _ => 0
  | .branded _ => 1
  | .list element => element.brackets + 1
  | .record _ => 0

end TypeExpression

namespace Source

/-- How many brackets in each other are read. -/
def greatestBrackets : Nat := 200

/-- Checks that so many brackets in each other are read. -/
def checkBrackets (count : Nat) : Except Fault Unit :=
  if greatestBrackets < count then .error .unreadableModule else .ok ()

/-- What follows a number of hexadecimal digits that write a code point. -/
def dropHexEscape? (width : Nat) (t : Text) : Option Text := do
  let digits ← (t.take width).mapM CodePoint.hexDigit?
  if digits.length = width ∧ digits.foldl (fun n d => 16 * n + d) 0 < 0x110000 then
    some (t.drop width)
  else none

/-- What follows an escape, given what stands behind its backslash.  Escapes by
the name of a code point are not read. -/
def dropEscape? : Text → Option Text
  | [] => none
  | c :: rest =>
      if c = 'x' then dropHexEscape? 2 rest
      else if c = 'u' then dropHexEscape? 4 rest
      else if c = 'U' then dropHexEscape? 8 rest
      else if c = 'N' then none
      else some rest

/-- The indentation of the statements of a method. -/
def indentation : Text :=
  List.replicate 8 (' ' : CodePoint)

/-- Why what follows a line cannot follow it: a deeper indentation has no
statement to belong to, and anything else is no statement. -/
def strayLine (t : Text) : Fault :=
  match Text.dropStart? t indentation with
  | some (c :: _) => if c = ' ' then .unexpectedIndent else .unreadableModule
  | _ => .unreadableModule

/-- Checks that a text is one line of texts between triple quotes, blanks between
them.  Anything else behind such a text is refused, also statements, which are not
followed.  `isInside` says whether reading starts inside of one.  The fuel bounds the
length. -/
def checkQuotedLine : (fuel : Nat) → (isInside : Bool) → (t : Text) → Except Fault Unit
  | 0, _, _ => .error .unreadableModule
  | fuel + 1, isInside, t =>
      match Text.dropStart? t "\"\"\"" with
      | some rest => checkQuotedLine fuel (! isInside) rest
      | none =>
          match t with
          | [] => .error .unreadableModule
          | c :: rest =>
              if isInside then
                if c = '\\' then
                  match dropEscape? rest with
                  | some rest => checkQuotedLine fuel true rest
                  | none => .error .unreadableModule
                else checkQuotedLine fuel true rest
              else if c = '\n' then
                if rest.isEmpty then .ok () else .error (strayLine rest)
              else if c = ' ' ∨ c = '\t' then checkQuotedLine fuel false rest
              else .error .unreadableModule

/-- A blank that can stand around a name in a line. -/
def isLineBlank (c : CodePoint) : Bool :=
  c = ' ' || c = '\t' || c.val = 0x0C

/-- A blank that can stand around a name in parentheses. -/
def isInnerBlank (c : CodePoint) : Bool :=
  isLineBlank c || c = '\n' || c = '\r'

/-- A name as it is read back, without the blanks around it. -/
def readName (isBlank : CodePoint → Bool) (name : Text) : Text :=
  Text.trimEnd (name.dropWhile isBlank) isBlank

/-- Whether a name can be given to something: it has to be an identifier, other than
the words of the language and than the name that is a constant. -/
def isGivable (name : Text) : Bool :=
  Text.isIdentifier name && ! Names.keywords.contains name && name ≠ "__debug__"

/-- Checks that a name can be given to something. -/
def checkName (name : Text) : Except Fault Unit :=
  if isGivable name then .ok () else .error .unreadableModule

/-- The names of the parameters of a function as they are read back. -/
def parameterNames (binding : FunctionBinding) : List Text :=
  binding.parameters.map fun p => readName isInnerBlank p.name

/-- All parameters of a method with parameters of the given names. -/
def withShared (names : List Text) (payable : Bool) : List Text :=
  let payment : List Text := if payable then ["attached_value"] else []
  Text.ofString "self" :: (names ++ payment)

/-- Checks the annotations in the head of a method.  Those of parameters stand in
brackets. -/
def checkAnnotations (binding : FunctionBinding) (kind : MethodKind) : Except Fault Unit := do
  binding.parameters.forM fun p => checkBrackets (1 + p.expression.brackets)
  match kind with
  | .localCall => checkBrackets binding.returnType.brackets
  | .remoteCall => return

/-- Checks the descriptions that a method hands on, which stand in brackets. -/
def checkDescriptions (binding : FunctionBinding) (kind : MethodKind) : Except Fault Unit := do
  let check (parameters : List Parameter) : Except Fault Unit :=
    checkBrackets (1 + (Value.list (parameters.map (·.describe))).brackets)
  check binding.inputs
  match kind with
  | .localCall => check binding.outputs
  | .remoteCall => return

/-- Checks a method of a function under a name in a class. -/
def checkMethod (className : Text) (binding : FunctionBinding) (kind : MethodKind)
    (name : Text) : Except Fault Unit := do
  let names := parameterNames binding
  (readName isLineBlank name :: names).forM checkName
  let kept := names.map (Names.memberName className)
  if ¬ (withShared kept binding.payable).Nodup then .error .unreadableModule
  checkAnnotations binding kind
  let text := documentation binding kind
  checkQuotedLine (text.length + 1) false text
  checkDescriptions binding kind

/-- Checks the methods of a function in a class, the local one first. -/
def checkFunction (className : Text) (binding : FunctionBinding) : Except Fault Unit := do
  checkMethod className binding .localCall binding.localMethod
  match binding.remoteMethod with
  | some name => checkMethod className binding .remoteCall name
  | none => return

/-- Checks the class of a contract. -/
def checkContract (contract : ContractBinding) : Except Fault Unit := do
  let className := readName isLineBlank contract.className
  checkName className
  contract.functions.forM (checkFunction className)

/-- Checks an entry of the registry of events, where the descriptions of parameters
stand in three brackets. -/
def checkEvent (description : EventDescription) : Except Fault Unit :=
  description.parameters.forM fun parameter => checkBrackets (3 + parameter.brackets)

/-- Checks the types of the fields of a record, which are read when it is defined. -/
def checkRecord (record : RecordFields) : Except Fault Unit :=
  record.forM fun (_, type) => checkBrackets type.brackets

/-- A function with its names as they are read back. -/
def readFunction (binding : FunctionBinding) : FunctionBinding :=
  { binding with
    localMethod := readName isLineBlank binding.localMethod
    remoteMethod := binding.remoteMethod.map (readName isLineBlank)
    parameters := binding.parameters.map fun p => { p with name := readName isInnerBlank p.name } }

/-- A contract with its names as they are read back. -/
def readContract (contract : ContractBinding) : ContractBinding :=
  { contract with
    className := readName isLineBlank contract.className
    functions := contract.functions.map readFunction }

end Source

namespace Assembly

/-- Refuses an assembly whose module cannot be written in UTF-8 or cannot be read
back, for the first reason in the order of its text.  What is written as a text is
read when all the rest has been. -/
def checkReadable (assembly : Assembly) : Except Fault Unit := do
  let body := Source.body assembly
  if ! assembly.isNameable || ! Text.isScalar body then .error .unencodable
  if body.any (·.val = 0) then .error .unreadableModule
  assembly.eventDescriptions.forM fun (_, description) => Source.checkEvent description
  assembly.eventTypes.forM fun type =>
    Source.checkName (Source.readName Source.isLineBlank type.className)
  assembly.contracts.forM Source.checkContract
  assembly.records.forM Source.checkRecord

/-- The assembly that is read back from the module of an assembly. -/
def readBack (assembly : Assembly) : Except Fault Assembly := do
  assembly.checkReadable
  return { assembly with
    contracts := assembly.contracts.map Source.readContract
    eventClasses := assembly.eventClasses.map fun (hash, name) =>
      (hash, Source.readName Source.isLineBlank name) }

end Assembly

end ContractBindings
