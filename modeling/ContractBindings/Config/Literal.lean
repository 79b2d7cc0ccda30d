import ContractBindings.Config.Options

namespace ContractBindings

/-!
# Abbreviated literals

Options are shown as a mapping with sorted keys in which long literals are cut
in the middle and long lists at the end.
-/

namespace Options

/-- The greatest length of a literal that is shown whole. -/
def literalLimit : Nat := 30

/-- The length of the beginning that is shown of a longer literal. -/
def beginning : Nat := 13

/-- The length of the end that is shown of a longer literal. -/
def ending : Nat := 14

/-- A literal without its middle, if it is too long. -/
def cut (literal : Text) : Text :=
  if literal.length ≤ literalLimit then literal
  else literal.take beginning ++ "..." ++ literal.drop (literal.length - ending)

/-- The literal of a text, from which the middle was taken if it is too long. -/
def cutQuoted (t : Text) : Text :=
  if (Text.quoted (t.take literalLimit)).length ≤ literalLimit then
    Text.quoted (t.take literalLimit)
  else
    let literal := Text.quoted (t.take beginning ++ t.drop (t.length - ending))
    literal.take beginning ++ "..." ++ literal.drop (literal.length - ending)

/-- The most elements that are shown of a list. -/
def listLimit : Nat := 6

/-- A list of paths, of which the first ones are shown. -/
def pathsLiteral (paths : List AbsolutePath) : Text :=
  let shown := (paths.take listLimit).map fun path => cut path.literal
  let more : List Text := if listLimit < paths.length then ["..."] else []
  "[" ++ Text.join ", " (shown ++ more) ++ "]"

/-- Entries between braces. -/
def braced (entries : List Text) : Text :=
  "\x7b" ++ Text.join ", " entries ++ "\x7d"

/-- The options of the generator as an abbreviated literal. -/
def generatorLiteral (options : GeneratorOptions) : Text :=
  braced <|
    (options.localSuffix.map fun suffix => "'local_suffix': " ++ cutQuoted suffix).toList ++
      (options.output.map fun path => "'output': " ++ cut path.literal).toList

/-- Options as an abbreviated literal. -/
def literal (options : Options) : Text :=
  braced <|
    (options.generator.map fun generator => "'generator': " ++ generatorLiteral generator).toList ++
      (options.subconfigs.map fun paths => "'subconfigs': " ++ pathsLiteral paths).toList

end Options

end ContractBindings
