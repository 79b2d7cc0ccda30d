namespace ContractBindings

/-!
# Texts

A text is a list of code points.  Surrogates are code points like any other:
a JSON escape can spell one that has no partner, and such a text must be
carried through everything except the encoding as UTF-8.
-/

/-- A code point, the surrogate range included. -/
abbrev CodePoint := Fin 0x110000

/-- A sequence of code points. -/
abbrev Text := List CodePoint

namespace CodePoint

/-- Every character is below the limit of code points. -/
theorem toNat_lt_limit (character : Char) : character.toNat < 0x110000 := by
  rcases character.valid with below | above
  · exact Nat.lt_trans below (by decide)
  · exact above.2

/-- The code point of a character. -/
def ofChar (character : Char) : CodePoint :=
  ⟨character.toNat, toNat_lt_limit character⟩

instance : Coe Char CodePoint := ⟨ofChar⟩

/-- There are code points, so that numbers can stand for them. -/
instance codePointsExist : @NeZero Nat Zero.ofOfNat0 0x110000 := ⟨by decide⟩

/-- Half of a UTF-16 pair, which no encoding of text can write. -/
def isSurrogate (c : CodePoint) : Bool :=
  0xD800 ≤ c.val && c.val ≤ 0xDFFF

/-- One of the ten ASCII digits. -/
def isAsciiDigit (c : CodePoint) : Bool :=
  0x30 ≤ c.val && c.val ≤ 0x39

/-- One of the 52 ASCII letters. -/
def isAsciiLetter (c : CodePoint) : Bool :=
  (0x41 ≤ c.val && c.val ≤ 0x5A) || (0x61 ≤ c.val && c.val ≤ 0x7A)

/-- A letter, a digit or the underscore, all in ASCII. -/
def isAsciiWord (c : CodePoint) : Bool :=
  c.isAsciiLetter || c.isAsciiDigit || c = '_'

/-- White space of Unicode 14: the controls that separate lines, tabs and records, and
the space characters. -/
def isBlank (c : CodePoint) : Bool :=
  (0x09 ≤ c.val && c.val ≤ 0x0D) || (0x1C ≤ c.val && c.val ≤ 0x20) ||
    c.val = 0x85 || c.val = 0xA0 || c.val = 0x1680 ||
    (0x2000 ≤ c.val && c.val ≤ 0x200A) || c.val = 0x2028 || c.val = 0x2029 ||
    c.val = 0x202F || c.val = 0x205F || c.val = 0x3000

/-- An ASCII capital is replaced by its small letter, anything else is kept. -/
def toAsciiLower (c : CodePoint) : CodePoint :=
  if 0x41 ≤ c.val ∧ c.val ≤ 0x5A then c + 0x20 else c

/-- The value of a hexadecimal digit in either case. -/
def hexDigit? (c : CodePoint) : Option Nat :=
  if 0x30 ≤ c.val ∧ c.val ≤ 0x39 then some (c.val - 0x30)
  else if 0x61 ≤ c.val ∧ c.val ≤ 0x66 then some (c.val - 0x61 + 10)
  else if 0x41 ≤ c.val ∧ c.val ≤ 0x46 then some (c.val - 0x41 + 10)
  else none

/-- The code point of a number below the limit, and U+FFFD for any other. -/
def ofNat (n : Nat) : CodePoint :=
  if bound : n < 0x110000 then ⟨n, bound⟩ else 0xFFFD

end CodePoint

namespace Text

/-- The code points of a string. -/
def ofString (s : String) : Text :=
  s.toList.map CodePoint.ofChar

instance : Coe String Text := ⟨ofString⟩

/-- The decimal digits of a number, most significant first. -/
def ofNat (n : Nat) : Text :=
  if n < 10 then [CodePoint.ofNat (0x30 + n)]
  else ofNat (n / 10) ++ [CodePoint.ofNat (0x30 + n % 10)]
termination_by n

/-- Decimal digits after a minus sign where the number is negative. -/
def ofInt (i : Int) : Text :=
  if i < 0 then (('-' : CodePoint) :: ofNat i.natAbs) else ofNat i.natAbs

/-- A text with no lone surrogate, which is to say one that UTF-8 can write. -/
def isScalar (t : Text) : Bool :=
  t.all (! ·.isSurrogate)

/-- What follows `start` in a text that begins with it. -/
def dropStart? : (t start : Text) → Option Text
  | t, [] => some t
  | [], _ :: _ => none
  | c :: t, s :: start => if c = s then dropStart? t start else none

/-- The text begins with `start`. -/
def startsWith (t start : Text) : Bool :=
  (dropStart? t start).isSome

/-- What stands before `ending` in a text that ends with it. -/
def dropEnd? (t ending : Text) : Option Text :=
  (dropStart? t.reverse ending.reverse).map List.reverse

/-- The text ends with `ending`. -/
def endsWith (t ending : Text) : Bool :=
  (dropEnd? t ending).isSome

/-- The texts one after another with `separator` between neighbours. -/
def join (separator : Text) (parts : List Text) : Text :=
  separator.intercalate parts

/-- Every occurrence of one code point is replaced by another. -/
def replace (t : Text) (old new : CodePoint) : Text :=
  t.map fun c => if c = old then new else c

/-- ASCII capitals become small letters. -/
def toAsciiLower (t : Text) : Text :=
  t.map CodePoint.toAsciiLower

/-- Whether `part` stands inside a text. -/
def contains : (t part : Text) → Bool
  | [], part => part.isEmpty
  | c :: t, part => startsWith (c :: t) part || contains t part

/-- What follows the first occurrence of `part`. -/
def after? : (t part : Text) → Option Text
  | [], part => if part.isEmpty then some [] else none
  | c :: t, part =>
      match dropStart? (c :: t) part with
      | some rest => some rest
      | none => after? t part

/-- The maximal runs of code points that are not `separator`, empty ones included. -/
def split : (t : Text) → (separator : CodePoint) → List Text
  | [], _ => [[]]
  | c :: t, separator =>
      if c = separator then [] :: split t separator
      else
        match split t separator with
        | [] => [[c]]
        | part :: parts => (c :: part) :: parts

/-- The order of texts by their code points. -/
def le : (a b : Text) → Bool
  | [], _ => true
  | _ :: _, [] => false
  | c :: a, d :: b => if c = d then le a b else decide (c < d)

/-- All occurrences of `old`, found from the left, are replaced by `new`. -/
def replaceAll (t old new : Text) : Text :=
  if old.isEmpty then t else go t.length t
where
  /-- The fuel is the length of what is left, which every step shortens. -/
  go : Nat → Text → Text
    | 0, t => t
    | fuel + 1, t =>
        match dropStart? t old with
        | some rest => new ++ go fuel rest
        | none =>
            match t with
            | [] => []
            | c :: rest => c :: go fuel rest

/-- Trailing code points of the given class are removed. -/
def trimEnd (t : Text) (drop : CodePoint → Bool) : Text :=
  (t.reverse.dropWhile drop).reverse

/-- The string of a text, for output: a lone surrogate becomes U+FFFD. -/
def toString (t : Text) : String :=
  String.ofList (t.map fun c => if c.isSurrogate then '\uFFFD' else Char.ofNat c.val)

end Text

end ContractBindings
