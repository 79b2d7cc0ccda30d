import ContractBindings.Text.Quoted

namespace ContractBindings

/-!
# Writing JSON

A document to be written is a `Json.Node`.  It is written on one line without
blanks, or over several lines with two more blanks of indentation for each
level; empty arrays and objects stay on one line.
-/

namespace Json

/-- A JSON document.  A number is given by its text. -/
inductive Node where
  | null
  | bool (b : Bool)
  | number (digits : Text)
  | text (t : Text)
  | array (nodes : List Node)
  | object (members : List (Text × Node))

/-- An escape of four hexadecimal digits. -/
def unicodeEscapeOf (n : Nat) : Text :=
  "\\u" ++ Text.hexPadded 4 n

/-- One code point between quotes.  Quotes, backslashes and controls are always
escaped; with `ascii` so is everything outside printable ASCII, in surrogate
pairs where one escape does not suffice. -/
def quoteOne (ascii : Bool) (c : CodePoint) : Text :=
  if c = '"' then "\\\""
  else if c = '\\' then "\\\\"
  else if c = '\n' then "\\n"
  else if c = '\r' then "\\r"
  else if c = '\t' then "\\t"
  else if c.val = 0x08 then "\\b"
  else if c.val = 0x0C then "\\f"
  else if c.val < 0x20 then unicodeEscapeOf c.val
  else if ! ascii || c.val < 0x7F then [c]
  else if c.val < 0x10000 then unicodeEscapeOf c.val
  else
    unicodeEscapeOf (0xD800 + (c.val - 0x10000) / 0x400) ++
      unicodeEscapeOf (0xDC00 + (c.val - 0x10000) % 0x400)

/-- A text between quotes. -/
def quote (ascii : Bool) (t : Text) : Text :=
  "\"" ++ t.flatMap (quoteOne ascii) ++ "\""

/-- A line break and the indentation of a level. -/
def lineBreak (level : Nat) : Text :=
  "\n" ++ List.replicate (2 * level) (' ' : CodePoint)

namespace Node

mutual

/-- A document on one line. -/
def compact (ascii : Bool) : Node → Text
  | .null => "null"
  | .bool b => if b then "true" else "false"
  | .number digits => digits
  | .text t => quote ascii t
  | .array nodes => "[" ++ Text.join "," (compactAll ascii nodes) ++ "]"
  | .object members => "\x7b" ++ Text.join "," (compactMembers ascii members) ++ "\x7d"

/-- Several documents on one line each. -/
def compactAll (ascii : Bool) : List Node → List Text
  | [] => []
  | node :: nodes => compact ascii node :: compactAll ascii nodes

/-- The members of an object on one line each. -/
def compactMembers (ascii : Bool) : List (Text × Node) → List Text
  | [] => []
  | (name, node) :: members =>
      (quote ascii name ++ ":" ++ compact ascii node) :: compactMembers ascii members

end

mutual

/-- A document over several lines, its first line without indentation. -/
def indented (level : Nat) : Node → Text
  | .null => "null"
  | .bool b => if b then "true" else "false"
  | .number digits => digits
  | .text t => quote false t
  | .array [] => "[]"
  | .array nodes =>
      "[" ++ lineBreak (level + 1) ++
        Text.join ("," ++ lineBreak (level + 1)) (indentedAll (level + 1) nodes) ++
        lineBreak level ++ "]"
  | .object [] => "\x7b\x7d"
  | .object members =>
      "\x7b" ++ lineBreak (level + 1) ++
        Text.join ("," ++ lineBreak (level + 1)) (indentedMembers (level + 1) members) ++
        lineBreak level ++ "\x7d"

/-- Several documents at one level. -/
def indentedAll (level : Nat) : List Node → List Text
  | [] => []
  | node :: nodes => indented level node :: indentedAll level nodes

/-- The members of an object at one level. -/
def indentedMembers (level : Nat) : List (Text × Node) → List Text
  | [] => []
  | (name, node) :: members =>
      (quote false name ++ ": " ++ indented level node) :: indentedMembers level members

end

end Node

end Json

end ContractBindings
