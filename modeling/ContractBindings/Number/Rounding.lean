import ContractBindings.Text.Basic

namespace ContractBindings

/-!
# Powers and rounding

Bits are counted in powers of two, decimal places in powers of ten.

A number format keeps a number of significant digits and has a least exponent.
A number with more digits, or with digits below the least exponent, is rounded
to the nearest one that the format has; of two that are equally near it is the
even one.
-/

/-- The number of values that a number of bits can have. -/
def twoTo (bits : Nat) : Nat :=
  Nat.pow 2 bits

/-- The number of values that a number of decimal digits can have. -/
def tenTo (digits : Nat) : Nat :=
  Nat.pow 10 digits

/-- A quotient rounded to the nearest integer, ties to even. -/
def roundQuotient (num den : Nat) : Nat :=
  let q := num / den
  let r := num % den
  if 2 * r > den ∨ (2 * r = den ∧ q % 2 = 1) then q + 1 else q

/-- How many digits a number is written with. -/
def digitCount (n : Nat) : Nat :=
  (Text.ofNat n).length

/-- A number without its last digits, and the number that these write. -/
def splitDigits (n count : Nat) : Nat × Nat :=
  if digitCount n < count then (0, n) else (n / tenTo count, n % tenTo count)

/-- A number without its last digits, rounded to the nearest, ties to even. -/
def dropDigits (n count : Nat) : Nat :=
  if digitCount n < count then 0 else roundQuotient n (tenTo count)

/-- The decimal numbers that a format has. -/
structure DecimalFormat where
  /-- The most significant digits. -/
  digits : Nat
  leastExponent : Int
  deriving DecidableEq, Repr

namespace DecimalFormat

/-- The number of the format that is nearest to `coefficient * 10 ^ exponent`,
again as a coefficient and an exponent. -/
def round (format : DecimalFormat) (coefficient : Nat) (exponent : Int) : Nat × Int :=
  let excess :=
    max ((digitCount coefficient : Int) - format.digits) (format.leastExponent - exponent)
  (dropDigits coefficient excess.toNat, exponent + excess.toNat)

end DecimalFormat

end ContractBindings
