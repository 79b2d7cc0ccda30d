import ContractBindings.Text.Digit

namespace ContractBindings

/-!
# Decimal numbers

A decimal number keeps the digits and the exponent it was written with, so
`1`, `1.0` and `10E-1` are three numbers of equal value.
-/

/-- A decimal number, infinities and NaNs included. -/
inductive Decimal where
  | finite (negative : Bool) (coefficient : Nat) (exponent : Int)
  | infinite (negative : Bool)
  | nan (negative signalling : Bool) (payload : Text)
  deriving DecidableEq, Repr

namespace Decimal

/-- An integer as a decimal number. -/
def ofInt (i : Int) : Decimal :=
  .finite (i < 0) i.natAbs 0

/-- Trailing zeros are dropped from a coefficient while its exponent is negative. -/
def reduce (negative : Bool) : (coefficient places : Nat) → Decimal
  | coefficient, 0 => .finite negative coefficient 0
  | coefficient, places + 1 =>
      if coefficient = 0 then .finite negative 0 0
      else if coefficient % 10 = 0 then reduce negative (coefficient / 10) places
      else .finite negative coefficient (-(places + 1 : Int))

/-- The quotient `i / 10 ^ places`, written with as few places as possible. -/
def ofScaled (i : Int) (places : Nat) : Decimal :=
  reduce (i < 0) i.natAbs places

/-- An exponent after a plus or minus sign. -/
def signedText (exponent : Int) : Text :=
  if exponent < 0 then "-" ++ Text.ofNat exponent.natAbs else "+" ++ Text.ofNat exponent.natAbs

/-- Digits with a decimal point after the first `point` of them, padded with zeros. -/
def placePoint (digits : Text) (point : Int) : Text :=
  if point ≤ 0 then
    "0." ++ List.replicate (-point).toNat ('0' : CodePoint) ++ digits
  else if point ≥ digits.length then
    digits ++ List.replicate (point.toNat - digits.length) ('0' : CodePoint)
  else digits.take point.toNat ++ "." ++ digits.drop point.toNat

/-- The text that reads back as the same number: positional where the exponent
is not positive and at most six zeros follow the point, scientific elsewhere. -/
def toText : Decimal → Text
  | .finite negative coefficient exponent =>
      let sign : Text := if negative then "-" else ""
      let digits := Text.ofNat coefficient
      let point : Int := exponent + digits.length
      if exponent ≤ 0 ∧ point > -6 then
        sign ++ placePoint digits point
      else
        sign ++ placePoint digits 1 ++ "E" ++ signedText (point - 1)
  | .infinite negative => (if negative then "-" else "") ++ "Infinity"
  | .nan negative signalling payload =>
      (if negative then "-" else "") ++ (if signalling then "sNaN" else "NaN") ++ payload

/-- The number without an exponent. -/
def toPositionalText : Decimal → Text
  | .finite negative coefficient exponent =>
      let sign : Text := if negative then "-" else ""
      if coefficient = 0 ∧ 0 < exponent then sign ++ "0"
      else
        let digits := Text.ofNat coefficient
        sign ++ placePoint digits (exponent + digits.length)
  | special => special.toText

/-!
## Reading
-/

/-- The greatest exponent of the first digit of a number. -/
def greatestExponent : Int := 999999999999999999

/-- The least exponent of the last digit of a number. -/
def leastExponent : Int := -1999999999999999997

/-- A number whose digits all have exponents in range. -/
def ofParts? (negative : Bool) (coefficient : Nat) (exponent : Int) : Option Decimal :=
  if leastExponent ≤ exponent ∧ exponent + (Text.ofNat coefficient).length - 1 ≤ greatestExponent
  then some (.finite negative coefficient exponent)
  else none

/-- The sign in front of a text, minus being true, and what follows it. -/
def takeSign (t : Text) : Bool × Text :=
  match t with
  | [] => (false, [])
  | c :: rest =>
      if c = '-' then (true, rest) else if c = '+' then (false, rest) else (false, t)

/-- The number that digits and nothing else write. -/
def digits? (t : Text) : Option Nat :=
  if t.isEmpty then none else Text.decimalValue? t

/-- The exponent behind the letter e, which is zero where nothing follows the
coefficient. -/
def readExponent? (t : Text) : Option Int :=
  match t with
  | [] => some 0
  | c :: rest =>
      if c = 'e' then
        let (down, size) := takeSign rest
        (digits? size).map fun n => if down then -(n : Int) else n
      else none

/-- Digits with at most one point among them and an exponent behind them. -/
def readFinite? (negative : Bool) (t : Text) : Option Decimal := do
  let (whole, rest) := t.span CodePoint.isDecimalDigit
  let (places, rest) : Text × Text :=
    match Text.dropStart? rest "." with
    | some rest => rest.span CodePoint.isDecimalDigit
    | none => ([], rest)
  let exponent ← readExponent? rest
  let coefficient ← digits? (whole ++ places)
  ofParts? negative coefficient (exponent - places.length)

/-- The digits behind a NaN without leading zeros. -/
def readPayload? (t : Text) : Option Text :=
  (Text.decimalValue? t).map fun n => if n = 0 then [] else Text.ofNat n

/-- A number in positional or scientific notation, an infinity or a NaN, in
letters of either case.  Blanks around it and underscores in it do not count. -/
def ofText? (t : Text) : Option Decimal :=
  let inner := Text.trimEnd (t.dropWhile CodePoint.isBlank) CodePoint.isBlank
  let (negative, small) := takeSign (Text.toAsciiLower (inner.filter fun c => c ≠ '_'))
  if small = "inf" ∨ small = "infinity" then some (.infinite negative)
  else
    match Text.dropStart? small "nan", Text.dropStart? small "snan" with
    | some payload, _ => (readPayload? payload).map (.nan negative false)
    | none, some payload => (readPayload? payload).map (.nan negative true)
    | none, none => readFinite? negative small

end Decimal

end ContractBindings
