import ContractBindings.Text.Hex
import ContractBindings.Text.Printable

namespace ContractBindings

/-!
# Quoted literals

A text is quoted by apostrophes, or by double quotes when it holds apostrophes
and no double quote.  The quote in use, the backslash and the unprintable code
points are escaped, so a quoted text stands on one line.  Byte strings follow
the same rule after the letter b and keep printable ASCII only.
-/

namespace Text

/-- `width` hexadecimal digits of a number, most significant first. -/
def hexPadded : (width n : Nat) → Text
  | 0, _ => []
  | width + 1, n => hexPadded width (n / 16) ++ [Octets.hexDigit (n % 16)]

/-- Apostrophes quote, unless the text has them and has no double quotes. -/
def quoteFor (t : Text) : CodePoint :=
  if t.any (· = '\'') && ! t.any (· = '"') then '"' else '\''

/-- One code point between quotes. -/
def quoteOne (quote c : CodePoint) : Text :=
  if c = quote ∨ c = '\\' then ['\\', c]
  else if c = '\n' then "\\n"
  else if c = '\r' then "\\r"
  else if c = '\t' then "\\t"
  else if c.isPrintable then [c]
  else if c.val < 0x100 then "\\x" ++ hexPadded 2 c.val
  else if c.val < 0x10000 then "\\u" ++ hexPadded 4 c.val
  else "\\U" ++ hexPadded 8 c.val

/-- The literal of a text. -/
def quoted (t : Text) : Text :=
  let quote := quoteFor t
  quote :: t.flatMap (quoteOne quote) ++ [quote]

end Text

namespace Octets

/-- One byte between quotes. -/
def quoteOne (quote : CodePoint) (b : UInt8) : Text :=
  let c := CodePoint.ofNat b.toNat
  if c = quote ∨ c = '\\' then ['\\', c]
  else if c = '\n' then "\\n"
  else if c = '\r' then "\\r"
  else if c = '\t' then "\\t"
  else if 0x20 ≤ b.toNat ∧ b.toNat < 0x7F then [c]
  else "\\x" ++ Text.hexPadded 2 b.toNat

/-- The literal of a byte string. -/
def quoted (bytes : Octets) : Text :=
  let quote := Text.quoteFor (bytes.map fun b => CodePoint.ofNat b.toNat)
  "b" ++ quote :: bytes.flatMap (quoteOne quote) ++ [quote]

end Octets

end ContractBindings
