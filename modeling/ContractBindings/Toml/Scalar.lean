import ContractBindings.Text.Basic

namespace ContractBindings

/-!
# Scalars of TOML

Texts in their four notations, and numbers, truth values and moments, of which
only the extent is read.  Each reader takes what it reads off the front of a
text; it fails where no such scalar stands there.
-/

namespace Toml

/-- Why a text is no document. -/
inductive Failure where
  | malformed
  /-- An integer in base ten has more digits than are read. -/
  | longInteger
  /-- Arrays and inline tables stand in too many others. -/
  | tooDeep
  deriving DecidableEq, Repr

/-- What has to stand in a text. -/
def required : Option α → Except Failure α
  | some a => .ok a
  | none => .error .malformed

/-- A blank inside a line. -/
def isBlank (c : CodePoint) : Bool :=
  c = ' ' || c = '\t'

/-- A blank or the end of a line. -/
def isBlankOrBreak (c : CodePoint) : Bool :=
  isBlank c || c = '\n'

/-- A control that must not stand in texts or comments. -/
def isControl (c : CodePoint) : Bool :=
  (c.val < 0x20 && c ≠ '\t') || c.val = 0x7F

/-- A control that must not stand in texts of several lines. -/
def isControlInBlock (c : CodePoint) : Bool :=
  isControl c && c ≠ '\n'

/-!
## Texts
-/

/-- The code point of a number of hexadecimal digits. -/
def hexEscape (width : Nat) (t : Text) : Option (CodePoint × Text) := do
  let digits := t.take width
  if digits.length ≠ width then none
  let values ← digits.mapM CodePoint.hexDigit?
  let n := values.foldl (fun n d => 16 * n + d) 0
  if n < 0xD800 ∨ (0xDFFF < n ∧ n < 0x110000) then
    some (CodePoint.ofNat n, t.drop width)
  else none

/-- What the code point after a backslash stands for. -/
def escaped (c : CodePoint) (rest : Text) : Option (CodePoint × Text) :=
  if c = 'b' then some (0x08, rest)
  else if c = 't' then some ('\t', rest)
  else if c = 'n' then some ('\n', rest)
  else if c = 'f' then some (0x0C, rest)
  else if c = 'r' then some ('\r', rest)
  else if c = 'e' then some (0x1B, rest)
  else if c = '"' then some ('"', rest)
  else if c = '\\' then some ('\\', rest)
  else if c = 'x' then hexEscape 2 rest
  else if c = 'u' then hexEscape 4 rest
  else if c = 'U' then hexEscape 8 rest
  else none

/-- What follows a backslash at the end of a line: the blanks and line breaks
after it are passed over. -/
def continuation? (afterBackslash : Text) : Option Text :=
  match afterBackslash.dropWhile isBlank with
  | [] => none
  | c :: rest => if c = '\n' then some (rest.dropWhile isBlankOrBreak) else none

/-- The rest of a text between double quotes on one line. -/
def restOfBasic : (fuel : Nat) → (t : Text) → Option (Text × Text)
  | 0, _ => none
  | fuel + 1, t =>
      match t with
      | [] => none
      | c :: rest =>
          if c = '"' then some ([], rest)
          else if c = '\\' then
            match rest with
            | [] => none
            | e :: rest => do
                let (c, rest) ← escaped e rest
                let (t, rest) ← restOfBasic fuel rest
                some (c :: t, rest)
          else if isControl c then none
          else (restOfBasic fuel rest).map fun (t, rest) => (c :: t, rest)

/-- The rest of a text between three double quotes on either side. -/
def restOfBasicBlock : (fuel : Nat) → (t : Text) → Option (Text × Text)
  | 0, _ => none
  | fuel + 1, t =>
      match Text.dropStart? t "\"\"\"" with
      | some rest => some ([], rest)
      | none =>
          match t with
          | [] => none
          | c :: rest =>
              if c = '\\' then
                match rest with
                | [] => none
                | e :: after =>
                    if isBlankOrBreak e then do
                      restOfBasicBlock fuel (← continuation? rest)
                    else do
                      let (c, rest) ← escaped e after
                      let (t, rest) ← restOfBasicBlock fuel rest
                      some (c :: t, rest)
              else if isControlInBlock c then none
              else (restOfBasicBlock fuel rest).map fun (t, rest) => (c :: t, rest)

/-- The rest of a text between apostrophes. -/
def restOfLiteral : (t : Text) → Option (Text × Text)
  | [] => none
  | c :: rest =>
      if c = '\'' then some ([], rest)
      else if isControl c then none
      else (restOfLiteral rest).map fun (t, rest) => (c :: t, rest)

/-- The rest of a text between three apostrophes on either side. -/
def restOfLiteralBlock : (t : Text) → Option (Text × Text)
  | [] => none
  | c :: rest =>
      match Text.dropStart? (c :: rest) "'''" with
      | some rest => some ([], rest)
      | none =>
          if isControlInBlock c then none
          else (restOfLiteralBlock rest).map fun (t, rest) => (c :: t, rest)

/-- Up to two more quotes at the end of a block belong to the text. -/
def withQuotes (quote : CodePoint) (block : Text × Text) : Text × Text :=
  match block with
  | (t, c :: rest) =>
      if c = quote then
        match rest with
        | d :: more => if d = quote then (t ++ [quote, quote], more) else (t ++ [quote], rest)
        | [] => (t ++ [quote], rest)
      else block
  | block => block

/-- The line break right after the opening of a block does not count. -/
def dropFirstBreak (t : Text) : Text :=
  (Text.dropStart? t "\n").getD t

/-- Reads a text in one of the four notations. -/
def readText (t : Text) : Option (Text × Text) :=
  match Text.dropStart? t "\"\"\"" with
  | some rest =>
      let rest := dropFirstBreak rest
      (restOfBasicBlock (rest.length + 1) rest).map (withQuotes '"')
  | none =>
      match Text.dropStart? t "'''" with
      | some rest => (restOfLiteralBlock (dropFirstBreak rest)).map (withQuotes '\'')
      | none =>
          match t with
          | c :: rest =>
              if c = '"' then restOfBasic (rest.length + 1) rest
              else if c = '\'' then restOfLiteral rest
              else none
          | [] => none

/-!
## Other scalars
-/

/-- Takes digits of a kind, single underscores between them allowed. -/
def dropDigits (isDigit : CodePoint → Bool) : (t : Text) → Option Text
  | c :: rest =>
      if isDigit c then
        match rest with
        | d :: more =>
            if isDigit d then dropDigits isDigit (d :: more)
            else
              match more with
              | e :: _ =>
                  if d = '_' && isDigit e then dropDigits isDigit more else some rest
              | [] => some rest
        | [] => some rest
      else none
  | [] => none

/-- A digit of a base that a letter after a zero stands for. -/
def baseDigit? (letter : CodePoint) : Option (CodePoint → Bool) :=
  if letter = 'x' then some fun c => c.hexDigit?.isSome
  else if letter = 'o' then some fun c => 0x30 ≤ c.val && c.val ≤ 0x37
  else if letter = 'b' then some fun c => c = '0' || c = '1'
  else none

/-- Takes a number in another base than ten. -/
def dropBased (t : Text) : Option Text := do
  let rest ← Text.dropStart? t "0"
  match rest with
  | letter :: digits =>
      let isDigit ← baseDigit? letter
      dropDigits isDigit digits
  | [] => none

/-- A text without one sign in front. -/
def dropSign (t : Text) : Text :=
  match t with
  | c :: rest => if c = '+' ∨ c = '-' then rest else t
  | [] => t

/-- Takes an exponent, if a complete one stands there. -/
def dropExponent (t : Text) : Text :=
  match t with
  | c :: rest =>
      if c = 'e' ∨ c = 'E' then
        (dropDigits CodePoint.isAsciiDigit (dropSign rest)).getD t
      else t
  | [] => t

/-- Takes places behind a point, if there are any. -/
def dropPlaces (t : Text) : Text :=
  match t with
  | c :: rest =>
      if c = '.' then (dropDigits CodePoint.isAsciiDigit rest).getD t else t
  | [] => t

/-- Takes the whole part of a number in base ten.  No digit follows a leading
zero. -/
def dropWhole (t : Text) : Option Text :=
  let digits := dropSign t
  match digits with
  | c :: rest => if c = '0' then some rest else dropDigits CodePoint.isAsciiDigit digits
  | [] => none

/-- The number of digits that an integer in base ten can have. -/
def greatestIntegerLength : Nat := 4300

/-- Takes a number in base ten, if one stands there. -/
def dropDecimal (t : Text) : Option (Except Failure Text) :=
  (dropWhole t).map fun whole =>
    let rest := dropExponent (dropPlaces whole)
    let digits := (t.take (t.length - whole.length)).filter CodePoint.isAsciiDigit
    if rest.length = whole.length ∧ greatestIntegerLength < digits.length then .error .longInteger
    else .ok rest

/-- The number that exactly `width` ASCII digits write. -/
def fixedDigits (width : Nat) (t : Text) : Option (Nat × Text) :=
  let digits := t.take width
  if digits.length = width && digits.all CodePoint.isAsciiDigit then
    some (digits.foldl (fun n c => 10 * n + (c.val - 0x30)) 0, t.drop width)
  else none

/-- Takes two digits that write a number in a range. -/
def dropTwo (least greatest : Nat) (t : Text) : Option Text := do
  let (n, rest) ← fixedDigits 2 t
  if least ≤ n ∧ n ≤ greatest then some rest else none

/-- Takes a fraction of a second, if one stands there. -/
def dropFraction (t : Text) : Text :=
  match Text.dropStart? t "." with
  | some (c :: fraction) =>
      if c.isAsciiDigit then fraction.dropWhile CodePoint.isAsciiDigit else t
  | _ => t

/-- Takes the seconds of a time, if they stand there. -/
def dropSeconds (t : Text) : Text :=
  match (Text.dropStart? t ":").bind (dropTwo 0 59) with
  | some rest => dropFraction rest
  | none => t

/-- Takes the time of a day, with or without seconds. -/
def dropTime (t : Text) : Option Text := do
  let rest ← dropTwo 0 23 t
  let rest ← dropTwo 0 59 (← Text.dropStart? rest ":")
  return dropSeconds rest

/-- Takes the offset of a time from universal time, if one stands there. -/
def dropOffset (t : Text) : Text :=
  match t with
  | c :: rest =>
      if c = 'Z' ∨ c = 'z' then rest
      else if c = '+' ∨ c = '-' then
        (do dropTwo 0 59 (← Text.dropStart? (← dropTwo 0 23 rest) ":")).getD t
      else t
  | [] => t

/-- The number of days of a month. -/
def daysOf (year month : Nat) : Nat :=
  if month = 2 then
    if year % 4 = 0 ∧ (year % 100 ≠ 0 ∨ year % 400 = 0) then 29 else 28
  else if month = 4 ∨ month = 6 ∨ month = 9 ∨ month = 11 then 30
  else 31

/-- A moment: a date, which a time and an offset may follow. -/
structure Date where
  year : Nat
  month : Nat
  day : Nat

/-- Whether there is such a day. -/
def Date.isValid (date : Date) : Bool :=
  1 ≤ date.year && date.day ≤ daysOf date.year date.month

/-- Takes what looks like a date. -/
def takeDate (t : Text) : Option (Date × Text) := do
  let (year, rest) ← fixedDigits 4 t
  let (month, rest) ← fixedDigits 2 (← Text.dropStart? rest "-")
  let (day, rest) ← fixedDigits 2 (← Text.dropStart? rest "-")
  if 1 ≤ month ∧ month ≤ 12 ∧ 1 ≤ day ∧ day ≤ 31 then some (⟨year, month, day⟩, rest)
  else none

/-- Takes the time and the offset after a date, if they stand there. -/
def dropTimeOfDate (t : Text) : Text :=
  match t with
  | c :: rest =>
      if c = 'T' ∨ c = 't' ∨ c = ' ' then ((dropTime rest).map dropOffset).getD t else t
  | [] => t

/-- The numbers that are written as words. -/
def numberWords : List Text :=
  ["inf", "nan", "+inf", "-inf", "+nan", "-nan"]

/-- Takes the first of some words that a text begins with. -/
def dropWord (words : List Text) (t : Text) : Option Text :=
  words.findSome? (Text.dropStart? t ·)

/-- Takes a moment, if one stands there. -/
def dropMoment (t : Text) : Option (Except Failure Text) :=
  match takeDate t with
  | some (date, rest) =>
      some (if date.isValid then .ok (dropTimeOfDate rest) else .error .malformed)
  | none => (dropTime t).map .ok

/-- Takes a truth value, a moment or a number. -/
def dropScalar (t : Text) : Except Failure Text :=
  (((dropWord ["true", "false"] t).map .ok).orElse fun _ => (dropMoment t).orElse fun _ =>
    ((dropBased t).map .ok).orElse fun _ => dropDecimal t).getD
      (required (dropWord numberWords t))

end Toml

end ContractBindings
