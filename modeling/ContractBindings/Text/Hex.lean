import ContractBindings.Text.Utf8

namespace ContractBindings

/-!
# Hexadecimal text

Bytes are written with two small digits each.  There are two readers:
`Octets.ofHex?` takes digit pairs and nothing else, `Octets.ofSpacedHex?` also
takes blanks between the pairs.
-/

namespace Octets

/-- The small digit of a number below sixteen. -/
def hexDigit (n : Nat) : CodePoint :=
  CodePoint.ofNat (if n < 10 then 0x30 + n else 0x61 + (n - 10))

/-- Two digits for each byte. -/
def toHex (bytes : Octets) : Text :=
  bytes.flatMap fun b => [hexDigit (b.toNat / 16), hexDigit (b.toNat % 16)]

/-- The bytes of an even number of digits in either case. -/
def ofHex? : Text → Option Octets
  | [] => some []
  | [_] => none
  | high :: low :: rest =>
      match high.hexDigit?, low.hexDigit? with
      | some h, some l => (ofHex? rest).map (UInt8.ofNat (16 * h + l) :: ·)
      | _, _ => none

/-- The six blanks of ASCII, which may stand between two bytes. -/
def isAsciiBlank (c : CodePoint) : Bool :=
  c.val = 0x20 || (0x09 ≤ c.val && c.val ≤ 0x0D)

/-- The bytes of digit pairs with blanks before, between and after them. -/
def ofSpacedHex? : Text → Option Octets
  | [] => some []
  | c :: rest =>
      if isAsciiBlank c then ofSpacedHex? rest
      else
        match rest with
        | [] => none
        | low :: rest =>
            match c.hexDigit?, low.hexDigit? with
            | some h, some l => (ofSpacedHex? rest).map (UInt8.ofNat (16 * h + l) :: ·)
            | _, _ => none

/-- A number as `width` bytes, most significant first. -/
def ofNat : (width n : Nat) → Octets
  | 0, _ => []
  | width + 1, n => ofNat width (n / 256) ++ [UInt8.ofNat (n % 256)]

/-- The number that the bytes write, most significant first. -/
def toNat (bytes : Octets) : Nat :=
  bytes.foldl (fun n b => n * 256 + b.toNat) 0

end Octets

end ContractBindings
