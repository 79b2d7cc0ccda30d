import ContractBindings.Number.Rounding
import ContractBindings.Text.Basic

namespace ContractBindings

/-!
# Double precision numbers

A double is its 64 bits.  `Binary64.ofDecimal` rounds a decimal to the nearest
double, ties to even, and `Binary64.shortest` finds the fewest decimal digits
that read back as the same double; both work in exact arithmetic on `Nat`.
-/

/-- A binary64 number, given by its bits. -/
structure Binary64 where
  bits : UInt64
  deriving DecidableEq, Repr

/-- A positive decimal number `digits * 10 ^ exponent`. -/
structure DecimalDigits where
  digits : Nat
  exponent : Int
  deriving DecidableEq, Repr

namespace Binary64

/-- The sign bit is set. -/
def isNegative (x : Binary64) : Bool :=
  x.bits.toNat ≥ twoTo 63

/-- The eleven bits of the exponent. -/
def exponentField (x : Binary64) : Nat :=
  x.bits.toNat / twoTo 52 % twoTo 11

/-- The 52 bits after the leading one. -/
def fractionField (x : Binary64) : Nat :=
  x.bits.toNat % twoTo 52

/-- Not a number. -/
def isNaN (x : Binary64) : Bool :=
  x.exponentField = 2047 && x.fractionField ≠ 0

/-- Greater than all numbers, or less. -/
def isInfinite (x : Binary64) : Bool :=
  x.exponentField = 2047 && x.fractionField = 0

/-- Zero of either sign. -/
def isZero (x : Binary64) : Bool :=
  x.exponentField = 0 && x.fractionField = 0

/-- The double with the given magnitude bits. -/
def ofBits (negative : Bool) (magnitude : Nat) : Binary64 :=
  ⟨UInt64.ofNat (magnitude + if negative then twoTo 63 else 0)⟩

/-- Zero of the given sign. -/
def signedZero (negative : Bool) : Binary64 :=
  ofBits negative 0

/-- Infinity of the given sign. -/
def infinity (negative : Bool) : Binary64 :=
  ofBits negative (2047 * twoTo 52)

/-- The quiet NaN. -/
def nan : Binary64 :=
  ofBits false (2047 * twoTo 52 + twoTo 51)

/-- The significand `m` and the power `q` of a finite magnitude `m * 2 ^ q`. -/
def magnitude (x : Binary64) : Nat × Int :=
  if x.exponentField = 0 then (x.fractionField, -1074)
  else (x.fractionField + twoTo 52, (x.exponentField : Int) - 1075)

/-- The integer that a finite double is, if it is one. -/
def toInt? (x : Binary64) : Option Int :=
  if x.exponentField = 2047 then none
  else
    let (m, q) := x.magnitude
    let size? : Option Nat :=
      if 0 ≤ q then some (m * twoTo q.toNat)
      else if m % twoTo (-q).toNat = 0 then some (m / twoTo (-q).toNat) else none
    size?.map fun size => if x.isNegative then -(size : Int) else size

/-- Numerator and denominator of `n * b ^ e`. -/
def scaled (n b : Nat) (e : Int) : Nat × Nat :=
  if 0 ≤ e then (n * Nat.pow b e.toNat, 1) else (n, Nat.pow b (-e).toNat)

/-- The greatest power `q`, at least -1074, at which `num / den` has a significand of 53 bits. -/
def binaryPower (num den : Nat) : Int :=
  let guess : Int := (num.log2 : Int) - (den.log2 : Int) - 52
  let (n, d) := scaled den 2 guess
  let q := if num * d < n * twoTo 52 then guess - 1 else guess
  max q (-1074)

/-- The double nearest to `digits * 10 ^ exponent`. -/
def ofDecimal (negative : Bool) (decimal : DecimalDigits) : Binary64 :=
  let places : Int := (Text.ofNat decimal.digits).length + decimal.exponent
  if decimal.digits = 0 ∨ places < -330 then signedZero negative
  else if places > 310 then infinity negative
  else
    let (num, den) := scaled decimal.digits 10 decimal.exponent
    let q := binaryPower num den
    let (n, d) := scaled den 2 q
    let m := roundQuotient (num * d) n
    if m < twoTo 52 then ofBits negative m
    else
      let field := q + 1075
      if field + (if m = twoTo 53 then 1 else 0) ≥ 2047 then infinity negative
      else ofBits negative (field.toNat * twoTo 52 + (m - twoTo 52))

/-- How many digits of `num / den` stand before the decimal point; not positive
when zeros follow the point. -/
def decimalPoint (num den : Nat) : Int :=
  let guess : Int := ((Text.ofNat num).length : Int) - (Text.ofNat den).length
  let (n, d) := scaled den 10 guess
  if num * d < n then guess else guess + 1

/-- The decimal grid `10 ^ e` has a point in the interval that rounds to the
double: the nearer of the two neighbours of its value, the even one of two
that are equally near. -/
def onGrid? (x : Binary64) (e : Int) : Option Nat :=
  let (m, q) := x.magnitude
  let (num, den) := scaled (4 * m) 2 (q - 2)
  let unit := (scaled 1 2 (q - 2)).1
  let low := num - (if m = twoTo 52 ∧ q > -1074 then unit else 2 * unit)
  let high := num + 2 * unit
  let (s, t) := scaled den 10 e
  let inside (n : Nat) : Bool :=
    if m % 2 = 0 then low * t ≤ n * s && n * s ≤ high * t
    else low * t < n * s && n * s < high * t
  let below := num * t / s
  let above := below + 1
  let twice := 2 * (num * t)
  let middle := (below + above) * s
  let nearBelow := twice < middle || (twice = middle && below % 2 = 0)
  if nearBelow && inside below && 0 < below then some below
  else if inside above then some above
  else if inside below && 0 < below then some below
  else none

/-- The fewest digits that read back as a finite double other than zero. -/
def shortest (x : Binary64) : DecimalDigits :=
  let (m, q) := x.magnitude
  let (num, den) := scaled m 2 q
  let point := decimalPoint num den
  let candidates := (List.range 17).filterMap fun (n : Nat) =>
    let e : Int := point - (n + 1)
    (onGrid? x e).map fun digits => DecimalDigits.mk digits e
  candidates.head?.getD ⟨m, 0⟩

end Binary64

namespace DecimalDigits

/-- Trailing zeros are moved into the exponent, by at most the given number of steps. -/
def trim : Nat → DecimalDigits → DecimalDigits
  | 0, d => d
  | fuel + 1, d =>
      if d.digits % 10 = 0 ∧ d.digits ≠ 0 then trim fuel ⟨d.digits / 10, d.exponent + 1⟩ else d

end DecimalDigits

namespace Binary64

/-- The text of a double: the fewest digits that read back, positional from
10^-4 up to 10^16, with at least one place after the point, and with an
exponent of at least two digits elsewhere. -/
def toText (x : Binary64) : Text :=
  let sign : Text := if x.isNegative then "-" else ""
  if x.isNaN then "nan"
  else if x.isInfinite then sign ++ "inf"
  else if x.isZero then sign ++ "0.0"
  else
    let shortest := x.shortest.trim 20
    let digits := Text.ofNat shortest.digits
    let point : Int := digits.length + shortest.exponent
    if -4 < point ∧ point ≤ 16 then
      if point ≤ 0 then
        sign ++ "0." ++ List.replicate (-point).toNat ('0' : CodePoint) ++ digits
      else if shortest.exponent ≥ 0 then
        sign ++ digits ++ List.replicate shortest.exponent.toNat ('0' : CodePoint) ++ ".0"
      else
        sign ++ digits.take point.toNat ++ "." ++ digits.drop point.toNat
    else
      let power := point - 1
      let size := Text.ofNat power.natAbs
      let mantissa := digits.take 1 ++ (if digits.length > 1 then "." ++ digits.drop 1 else [])
      sign ++ mantissa ++ (if power < 0 then "e-" else "e+") ++
        (if size.length < 2 then "0" ++ size else size)

end Binary64

end ContractBindings
