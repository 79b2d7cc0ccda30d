import ContractBindings.Text.Basic

namespace ContractBindings

/-!
# Marked-up messages

Messages are printed from marked-up text.  A tag stands in brackets and begins
with a small letter or with one of three signs; it opens a style, or closes one
if its sign is a slash, and is not printed itself.  Backslashes in front of a tag
make it plain text, which is how `escape` protects a text.
-/

namespace Markup

/-- What the inside of a tag can begin with. -/
def beginsTag (c : CodePoint) : Bool :=
  (0x61 ≤ c.val && c.val ≤ 0x7A) || c = '#' || c = '/' || c = '@'

/-- The inside of the tag that a text begins with, and what follows the tag. -/
def takeTag? (t : Text) : Option (Text × Text) :=
  match Text.dropStart? t "[" with
  | none => none
  | some [] => none
  | some (first :: rest) =>
      if beginsTag first then
        let inner := rest.takeWhile fun c => c ≠ ('[' : CodePoint) && c ≠ (']' : CodePoint)
        (Text.dropStart? (rest.drop inner.length) "]").map fun after => (first :: inner, after)
      else none

/-- The backslashes that a text begins with. -/
def slashes (t : Text) : Text :=
  t.takeWhile fun c => c = ('\\' : CodePoint)

/-- A part of a marked-up text. -/
inductive Piece where
  | plain (t : Text)
  | tag (inside : Text)
  deriving DecidableEq

/-- The parts of a marked-up text.  Of the backslashes in front of a tag half are
printed, and an odd one takes the meaning from the tag.  A single backslash in
front of any other opening bracket is not printed.  The fuel bounds the parts. -/
def pieces : (fuel : Nat) → (t : Text) → List Piece
  | 0, _ => []
  | _, [] => []
  | fuel + 1, c :: rest =>
      let marks := slashes (c :: rest)
      match takeTag? ((c :: rest).drop marks.length) with
      | some (inside, rest) =>
          let last : Piece :=
            if marks.length % 2 = 0 then .tag inside else .plain ("[" ++ inside ++ "]")
          .plain (marks.take (marks.length / 2)) :: last :: pieces fuel rest
      | none =>
          match Text.dropStart? (c :: rest) "\\[" with
          | some rest => .plain "[" :: pieces fuel rest
          | none => .plain [c] :: pieces fuel rest

/-- A style under the name by which tags are matched. -/
def styleName (t : Text) : Text :=
  Text.toAsciiLower (Text.trimEnd (t.dropWhile CodePoint.isBlank) CodePoint.isBlank)

/-- The open styles after a tag, the innermost first.  A closing tag without a
name closes the innermost style; one with a name needs an open style of it. -/
def afterTag (opened : List Text) (inside : Text) : Option (List Text) :=
  let name := inside.takeWhile fun c => c ≠ ('=' : CodePoint)
  match Text.dropStart? name "/" with
  | none => some (styleName name :: opened)
  | some name =>
      match styleName name, opened with
      | [], [] => none
      | [], _ :: rest => some rest
      | name, opened => if opened.contains name then some (opened.erase name) else none

namespace Piece

/-- What is printed of a part. -/
def printed : Piece → Text
  | .plain t => t
  | .tag _ => []

/-- The inside of a tag. -/
def tag? : Piece → Option Text
  | .plain _ => none
  | .tag inside => some inside

end Piece

/-- A control that is never printed. -/
def isUnprinted (c : CodePoint) : Bool :=
  c.val = 7 || c.val = 8 || (11 ≤ c.val && c.val ≤ 13)

/-- Spaces in the place of each tab, up to the next column that eight divides. -/
def expandTabs : (column : Nat) → (t : Text) → Text
  | _, [] => []
  | column, c :: rest =>
      if c = '\n' then c :: expandTabs 0 rest
      else if c = '\t' then
        let width := 8 - column % 8
        List.replicate width (' ' : CodePoint) ++ expandTabs (column + width) rest
      else c :: expandTabs (column + 1) rest

/-- What is printed of a marked-up text, if its closing tags have styles to
close. -/
def print? (t : Text) : Option Text :=
  let parts := pieces t.length t
  ((parts.filterMap Piece.tag?).foldlM afterTag []).map fun _ =>
    expandTabs 0 ((parts.flatMap Piece.printed).filter (! isUnprinted ·))

/-- A text with its tags made plain text.  The fuel bounds the length. -/
def escapeTags : (fuel : Nat) → (t : Text) → Text
  | 0, t => t
  | _, [] => []
  | fuel + 1, c :: rest =>
      let marks := slashes (c :: rest)
      match takeTag? ((c :: rest).drop marks.length) with
      | some (inside, rest) =>
          marks ++ marks ++ "\\[" ++ inside ++ "]" ++ escapeTags fuel rest
      | none => c :: escapeTags fuel rest

/-- A text as marked-up text.  A single backslash at the end is doubled, so that
it does not reach a tag behind the text. -/
def escape (t : Text) : Text :=
  let escaped := escapeTags t.length t
  if Text.endsWith escaped "\\" && ! Text.endsWith escaped "\\\\" then escaped ++ "\\"
  else escaped

/-- A text between the tags of a style. -/
def styled (style t : Text) : Text :=
  "[" ++ style ++ "]" ++ t ++ "[/" ++ style ++ "]"

end Markup

end ContractBindings
