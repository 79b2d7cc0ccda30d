import ContractBindings.Fault
import ContractBindings.Value

namespace ContractBindings

/-!
# Reading JSON

The reader walks a text from left to right.  A fault is reported with what was
left of the text where it was met, so its position is the difference of two
lengths.  Lone surrogates in escapes are kept, `NaN` and the infinities are
numbers, and the last entry of an object wins over earlier ones with its key.
-/

namespace Json

/-- Why a text is not JSON. -/
inductive Fault where
  | expectedValue
  | expectedName
  | expectedColon
  | expectedComma
  | unterminatedText
  | controlCharacter
  | badEscape
  | badUnicodeEscape
  | extraData
  | byteOrderMark
  /-- An integer with more than 4300 digits. -/
  | integerTooLong
  /-- Arrays and objects that stand in too many others. -/
  | tooDeep
  deriving DecidableEq, Repr

/-- A fault and what is left of the text from the place where it was met. -/
structure Stop where
  fault : Fault
  rest : Text
  deriving DecidableEq, Repr

/-- The four blanks of JSON. -/
def isBlank (c : CodePoint) : Bool :=
  c = ' ' || c = '\t' || c = '\n' || c = '\r'

/-- The text after its leading blanks. -/
def skipBlanks (t : Text) : Text :=
  t.dropWhile isBlank

/-- The number that four hexadecimal digits write. -/
def hex4? (a b c d : CodePoint) : Option Nat := do
  return (((← a.hexDigit?) * 16 + (← b.hexDigit?)) * 16 + (← c.hexDigit?)) * 16 + (← d.hexDigit?)

/-- The code point that a backslash and one letter stand for. -/
def simpleEscape? (c : CodePoint) : Option CodePoint :=
  if c = '"' ∨ c = '\\' ∨ c = '/' then some c
  else if c = 'b' then some 0x08
  else if c = 'f' then some 0x0C
  else if c = 'n' then some 0x0A
  else if c = 'r' then some 0x0D
  else if c = 't' then some 0x09
  else none

/-- A high surrogate, the first half of a pair. -/
def isHighSurrogate (n : Nat) : Bool :=
  0xD800 ≤ n && n < 0xDC00

/-- A low surrogate, the second half of a pair. -/
def isLowSurrogate (n : Nat) : Bool :=
  0xDC00 ≤ n && n < 0xE000

/-- The code point of a surrogate pair. -/
def joinSurrogates (high low : Nat) : CodePoint :=
  CodePoint.ofNat (0x10000 + (high - 0xD800) * 0x400 + (low - 0xDC00))

/-- The second half of a surrogate pair at the front of `rest`, and what follows
it.  An escape counts only if the text goes on after it. -/
def secondHalf? (rest : Text) : Except Stop (Option (Nat × Text)) :=
  match rest with
  | b :: u :: d₁ :: d₂ :: d₃ :: d₄ :: c :: rest =>
      if b = '\\' ∧ u = 'u' then
        match hex4? d₁ d₂ d₃ d₄ with
        | none => .error ⟨.badUnicodeEscape, u :: d₁ :: d₂ :: d₃ :: d₄ :: c :: rest⟩
        | some n => .ok (if isLowSurrogate n then some (n, c :: rest) else none)
      else .ok none
  | _ => .ok none

/-- The code point of the escape whose letter u is at the front of `escape`. -/
def unicodeEscape (escape : Text) : Except Stop (CodePoint × Text) :=
  match escape with
  | _ :: d₁ :: d₂ :: d₃ :: d₄ :: c :: rest =>
      match hex4? d₁ d₂ d₃ d₄ with
      | none => .error ⟨.badUnicodeEscape, escape⟩
      | some n =>
          if isHighSurrogate n then
            match secondHalf? (c :: rest) with
            | .error stop => .error stop
            | .ok (some (low, rest)) => .ok (joinSurrogates n low, rest)
            | .ok none => .ok (CodePoint.ofNat n, c :: rest)
          else .ok (CodePoint.ofNat n, c :: rest)
  | _ => .error ⟨.badUnicodeEscape, escape⟩

/-- Reads the inside of a text and its closing quote.  `opening` starts at the
opening quote, `done` holds the code points read so far, the last one first, and
the fuel is the length of the text. -/
def readText (opening : Text) : (fuel : Nat) → (done t : Text) → Except Stop (Text × Text)
  | 0, _, _ => .error ⟨.unterminatedText, opening⟩
  | _ + 1, _, [] => .error ⟨.unterminatedText, opening⟩
  | fuel + 1, done, c :: rest =>
      if c = '"' then .ok (done.reverse, rest)
      else if c = '\\' then
        match rest with
        | [] => .error ⟨.unterminatedText, opening⟩
        | e :: rest' =>
            if e = 'u' then
              match unicodeEscape rest with
              | .error stop => .error stop
              | .ok (d, rest) => readText opening fuel (d :: done) rest
            else
              match simpleEscape? e with
              | some d => readText opening fuel (d :: done) rest'
              | none => .error ⟨.badEscape, c :: rest⟩
      else if c.val < 0x20 then .error ⟨.controlCharacter, c :: rest⟩
      else readText opening fuel (c :: done) rest

/-- The number of decimal digits that an integer may have. -/
def digitLimit : Nat := 4300

/-- The places after a decimal point, if the point is followed by a digit. -/
def takePlaces (t : Text) : Text × Text :=
  match t with
  | p :: d :: rest =>
      if p = '.' ∧ d.isAsciiDigit then
        ((d :: rest).takeWhile CodePoint.isAsciiDigit, (d :: rest).dropWhile CodePoint.isAsciiDigit)
      else ([], t)
  | _ => ([], t)

/-- The exponent after the letter e, if there is one with a digit. -/
def takeExponent? (t : Text) : Option (Int × Text) :=
  match t with
  | [] => none
  | e :: rest =>
      if e = 'e' ∨ e = 'E' then
        let (down, digits) : Bool × Text :=
          match rest with
          | s :: tail =>
              if s = '-' then (true, tail) else if s = '+' then (false, tail) else (false, rest)
          | [] => (false, [])
        let size := digits.takeWhile CodePoint.isAsciiDigit
        if size.isEmpty then none
        else
          (Text.decimalValue? size).map fun n =>
            (if down then -(n : Int) else n, digits.dropWhile CodePoint.isAsciiDigit)
      else none

/-- A number at the front of a text. -/
def readNumber (t : Text) : Except Stop (Value × Text) :=
  let (negative, body) : Bool × Text :=
    match t with
    | c :: rest => if c = '-' then (true, rest) else (false, t)
    | [] => (false, [])
  let whole : Text :=
    match body with
    | c :: _ => if c = '0' then ['0'] else body.takeWhile CodePoint.isAsciiDigit
    | [] => []
  if whole.isEmpty then .error ⟨.expectedValue, t⟩
  else
    let (places, rest) := takePlaces (body.drop whole.length)
    match places, takeExponent? rest with
    | [], none =>
        if whole.length > digitLimit then .error ⟨.integerTooLong, t⟩
        else
          let size : Int := whole.decimalValue?.getD 0
          .ok (.int (if negative then -size else size), rest)
    | _, power? =>
        let (power, rest) := power?.getD (0, rest)
        let digits := (Text.decimalValue? (whole ++ places)).getD 0
        .ok (.float (Binary64.ofDecimal negative ⟨digits, power - places.length⟩), rest)

/-- The words that are values. -/
def words : List (Text × Value) :=
  [("null", .null), ("true", .bool true), ("false", .bool false), ("NaN", .float Binary64.nan),
    ("Infinity", .float (Binary64.infinity false)), ("-Infinity", .float (Binary64.infinity true))]

/-- A word, or else a number, at the front of a text. -/
def readScalar (t : Text) : Except Stop (Value × Text) :=
  match words.findSome? fun (word, v) => (t.dropStart? word).map (v, ·) with
  | some result => .ok result
  | none => readNumber t

mutual

/-- A value at the front of a text, which must not start with a blank.  There is
room for so many arrays and objects in each other. -/
def readValue : (fuel : Nat) → (room : Nat) → (t : Text) → Except Stop (Value × Text)
  | 0, _, t => .error ⟨.expectedValue, t⟩
  | _ + 1, _, [] => .error ⟨.expectedValue, []⟩
  | fuel + 1, room, c :: rest =>
      if c = '"' then
        (readText (c :: rest) (rest.length + 1) [] rest).map fun (t, rest) => (.text t, rest)
      else if (c = '\x7b' ∨ c = '[') ∧ room = 0 then .error ⟨.tooDeep, c :: rest⟩
      else if c = '\x7b' then
        match skipBlanks rest with
        | d :: rest =>
            if d = '\x7d' then .ok (.dict [], rest) else readMembers fuel (room - 1) [] (d :: rest)
        | [] => .error ⟨.expectedName, []⟩
      else if c = '[' then
        match skipBlanks rest with
        | d :: rest =>
            if d = ']' then .ok (.list [], rest) else readElements fuel (room - 1) [] (d :: rest)
        | [] => .error ⟨.expectedValue, []⟩
      else readScalar (c :: rest)

/-- The members of an object from a name on; `done` holds those before it. -/
def readMembers : (fuel room : Nat) → (done : Entries) → (t : Text) →
    Except Stop (Value × Text)
  | 0, _, _, t => .error ⟨.expectedName, t⟩
  | _ + 1, _, _, [] => .error ⟨.expectedName, []⟩
  | fuel + 1, room, done, c :: rest =>
      if c ≠ '"' then .error ⟨.expectedName, c :: rest⟩
      else
        match readText (c :: rest) (rest.length + 1) [] rest with
        | .error stop => .error stop
        | .ok (name, rest) =>
            match skipBlanks rest with
            | [] => .error ⟨.expectedColon, []⟩
            | d :: rest =>
                if d ≠ ':' then .error ⟨.expectedColon, d :: rest⟩
                else
                  match readValue fuel room (skipBlanks rest) with
                  | .error stop => .error stop
                  | .ok (v, rest) =>
                      let done := done.set (.text name) v
                      match skipBlanks rest with
                      | [] => .error ⟨.expectedComma, []⟩
                      | e :: rest =>
                          if e = '\x7d' then .ok (.dict done, rest)
                          else if e = ',' then readMembers fuel room done (skipBlanks rest)
                          else .error ⟨.expectedComma, e :: rest⟩

/-- The elements of an array from one on; `done` holds those before it, the last one first. -/
def readElements : (fuel room : Nat) → (done : List Value) → (t : Text) →
    Except Stop (Value × Text)
  | 0, _, _, t => .error ⟨.expectedValue, t⟩
  | fuel + 1, room, done, t =>
      match readValue fuel room t with
      | .error stop => .error stop
      | .ok (v, rest) =>
          match skipBlanks rest with
          | [] => .error ⟨.expectedComma, []⟩
          | e :: rest =>
              if e = ']' then .ok (.list (v :: done).reverse, rest)
              else if e = ',' then readElements fuel room (v :: done) (skipBlanks rest)
              else .error ⟨.expectedComma, e :: rest⟩

end

/-- Reads a whole text as one value. -/
def read (t : Text) : Except Stop Value :=
  if t.startsWith [0xFEFF] then .error ⟨.byteOrderMark, t⟩
  else
    match readValue (2 * t.length + 2) greatestDepth (skipBlanks t) with
    | .error stop => .error stop
    | .ok (v, rest) =>
        match skipBlanks rest with
        | [] => .ok v
        | c :: rest => .error ⟨.extraData, c :: rest⟩

namespace Fault

/-- The wording of a fault, without its place. -/
def message : Fault → Text
  | .expectedValue => "Expecting value"
  | .expectedName => "Expecting property name enclosed in double quotes"
  | .expectedColon => "Expecting ':' delimiter"
  | .expectedComma => "Expecting ',' delimiter"
  | .unterminatedText => "Unterminated string starting at"
  | .controlCharacter => "Invalid control character at"
  | .badEscape => "Invalid \\escape"
  | .badUnicodeEscape => "Invalid \\uXXXX escape"
  | .extraData => "Extra data"
  | .byteOrderMark => "Unexpected UTF-8 BOM (decode using utf-8-sig)"
  | .integerTooLong => "Integer with too many digits"
  | .tooDeep => "Too many arrays and objects in each other"

end Fault

namespace Stop

/-- The wording of a fault with line, column and offset, the first two counted from one. -/
def message (stop : Stop) (t : Text) : Text :=
  let offset := t.length - stop.rest.length
  let before := t.take offset
  let lineEnd : CodePoint := '\n'
  let line := before.count lineEnd + 1
  let column := (before.reverse.takeWhile (· ≠ lineEnd)).length + 1
  stop.fault.message ++ ": line " ++ Text.ofNat line ++ " column " ++ Text.ofNat column ++
    " (char " ++ Text.ofNat offset ++ ")"

end Stop

end Json

end ContractBindings
