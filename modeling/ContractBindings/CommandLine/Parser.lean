import ContractBindings.Text.Basic

namespace ContractBindings

/-!
# Options on a command line

Short options are one letter behind a dash, and several of them can share one
dash.  Long options follow two dashes and can have their value behind an equals
sign.  Two dashes alone end the options.
-/

namespace CommandLine

/-- An option, and what it stands for. -/
structure OptionRule (ι : Type) where
  /-- The spellings, dashes included. -/
  names : List Text
  takesValue : Bool
  meaning : ι

/-- Options in the order given, with their values, and the other arguments. -/
structure Given (ι : Type) where
  options : List (ι × Option Text)
  arguments : List Text

namespace Given

/-- An option before others. -/
def withOptions (first : List (ι × Option Text)) (given : Given ι) : Given ι :=
  { given with options := first ++ given.options }

/-- An argument before others. -/
def withArgument (first : Text) (given : Given ι) : Given ι :=
  { given with arguments := first :: given.arguments }

end Given

/-- The rule for a spelling. -/
def findRule (rules : List (OptionRule ι)) (name : Text) : Option (OptionRule ι) :=
  rules.find? fun rule => rule.names.contains name

/-- A spelling with two dashes. -/
def isLong (name : Text) : Bool :=
  Text.startsWith name "--"

/-- The options behind one dash, with what is left of the arguments.  The first
option with a value takes what follows it as its value. -/
def readShort (rules : List (OptionRule ι)) : (letters : Text) → (arguments : List Text) →
    Option (List (ι × Option Text) × List Text)
  | [], arguments => some ([], arguments)
  | letter :: letters, arguments => do
      let rule ← findRule rules ['-', letter]
      if rule.takesValue then
        match letters, arguments with
        | [], [] => none
        | [], value :: arguments => some ([(rule.meaning, some value)], arguments)
        | value, arguments => some ([(rule.meaning, some value)], arguments)
      else
        let (options, arguments) ← readShort rules letters arguments
        some ((rule.meaning, none) :: options, arguments)

/-- A long option with its value, and what is left of the arguments. -/
def readLong (rules : List (OptionRule ι)) (argument : Text) (arguments : List Text) :
    Option (List (ι × Option Text) × List Text) := do
  let name := argument.takeWhile fun c => c ≠ ('=' : CodePoint)
  let value := Text.after? argument "="
  let rule ← findRule rules name
  match rule.takesValue, value with
  | true, some value => some ([(rule.meaning, some value)], arguments)
  | true, none =>
      match arguments with
      | value :: arguments => some ([(rule.meaning, some value)], arguments)
      | [] => none
  | false, some _ => none
  | false, none => some ([(rule.meaning, none)], arguments)

/-- Reads arguments.  Unless options may follow them, the first argument that
is no option ends the options.  Nothing is read where an option is unknown or
lacks its value.  The fuel bounds the arguments. -/
def readArguments (rules : List (OptionRule ι)) (mayFollow : Bool) : (fuel : Nat) →
    (arguments : List Text) → Option (Given ι)
  | 0, arguments => some ⟨[], arguments⟩
  | fuel + 1, arguments =>
      match arguments with
      | [] => some ⟨[], []⟩
      | argument :: rest =>
          if argument = "--" then some ⟨[], rest⟩
          else if Text.startsWith argument "-" && argument.length > 1 then do
            let (options, rest) ←
              if isLong argument then readLong rules argument rest
              else readShort rules (argument.drop 1) rest
            return (← readArguments rules mayFollow fuel rest).withOptions options
          else if mayFollow then do
            return (← readArguments rules mayFollow fuel rest).withArgument argument
          else some ⟨[], argument :: rest⟩

/-- Reads all arguments. -/
def read (rules : List (OptionRule ι)) (mayFollow : Bool) (arguments : List Text) :
    Option (Given ι) :=
  readArguments rules mayFollow (arguments.length + 1) arguments

namespace Given

/-- Whether an option is given. -/
def has [DecidableEq ι] (given : Given ι) (meaning : ι) : Bool :=
  given.options.any fun (other, _) => other = meaning

/-- The value that was given last for an option. -/
def last? [DecidableEq ι] (given : Given ι) (meaning : ι) : Option Text :=
  ((given.options.filter fun (other, _) => other = meaning).getLast?).bind (·.2)

end Given

end CommandLine

end ContractBindings
