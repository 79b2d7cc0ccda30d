import ContractBindings.Text.Basic

namespace ContractBindings

/-!
# UTF-8

`Text.utf8` writes every code point, a lone surrogate in the three bytes its
number calls for.  Texts that hold one have no UTF-8 form, so the writers of
files and hashes ask `Text.isScalar` first; `Text.ofUtf8?` reads well-formed
UTF-8 only, which excludes surrogates, overlong forms and numbers past the
last code point.  Bytes that are no UTF-8 can be kept as a text with surrogates
in it, which no reader takes for text.
-/

/-- A sequence of bytes. -/
abbrev Octets := List UInt8

namespace CodePoint

/-- The bytes of one code point. -/
def utf8 (c : CodePoint) : Octets :=
  let n := c.val
  if n < 0x80 then [UInt8.ofNat n]
  else if n < 0x800 then
    [UInt8.ofNat (0xC0 + n / 0x40), UInt8.ofNat (0x80 + n % 0x40)]
  else if n < 0x10000 then
    [UInt8.ofNat (0xE0 + n / 0x1000), UInt8.ofNat (0x80 + n / 0x40 % 0x40),
      UInt8.ofNat (0x80 + n % 0x40)]
  else
    [UInt8.ofNat (0xF0 + n / 0x40000), UInt8.ofNat (0x80 + n / 0x1000 % 0x40),
      UInt8.ofNat (0x80 + n / 0x40 % 0x40), UInt8.ofNat (0x80 + n % 0x40)]

end CodePoint

namespace Text

/-- The bytes of a text, code point by code point. -/
def utf8 (t : Text) : Octets :=
  t.flatMap CodePoint.utf8

/-- The six bits that a continuation byte carries. -/
def continuation? (b : UInt8) : Option Nat :=
  if 0x80 ≤ b.toNat ∧ b.toNat < 0xC0 then some (b.toNat - 0x80) else none

/-- The code point `n`, if it lies in the range that its number of bytes may write. -/
def inRange? (low high n : Nat) : Option CodePoint :=
  if low ≤ n ∧ n < high ∧ ¬ (0xD800 ≤ n ∧ n ≤ 0xDFFF) then some (CodePoint.ofNat n) else none

/-- Reads well-formed UTF-8. -/
def ofUtf8? : Octets → Option Text
  | [] => some []
  | b :: rest =>
      if b.toNat < 0x80 then
        (ofUtf8? rest).map (CodePoint.ofNat b.toNat :: ·)
      else if b.toNat < 0xC0 then none
      else if b.toNat < 0xE0 then
        match rest with
        | b₁ :: rest =>
            match continuation? b₁ with
            | some x₁ =>
                match inRange? 0x80 0x800 ((b.toNat - 0xC0) * 0x40 + x₁) with
                | some c => (ofUtf8? rest).map (c :: ·)
                | none => none
            | none => none
        | [] => none
      else if b.toNat < 0xF0 then
        match rest with
        | b₁ :: b₂ :: rest =>
            match continuation? b₁, continuation? b₂ with
            | some x₁, some x₂ =>
                match inRange? 0x800 0x10000
                    (((b.toNat - 0xE0) * 0x40 + x₁) * 0x40 + x₂) with
                | some c => (ofUtf8? rest).map (c :: ·)
                | none => none
            | _, _ => none
        | _ => none
      else
        match rest with
        | b₁ :: b₂ :: b₃ :: rest =>
            match continuation? b₁, continuation? b₂, continuation? b₃ with
            | some x₁, some x₂, some x₃ =>
                match inRange? 0x10000 0x110000
                    ((((b.toNat - 0xF0) * 0x40 + x₁) * 0x40 + x₂) * 0x40 + x₃) with
                | some c => (ofUtf8? rest).map (c :: ·)
                | none => none
            | _, _, _ => none
        | _ => none

/-- The text of bytes.  Bytes that are no UTF-8 are kept one by one, those past
ASCII as surrogates. -/
def ofOctets (bytes : Octets) : Text :=
  (ofUtf8? bytes).getD (bytes.map fun b =>
    CodePoint.ofNat (if b.toNat < 0x80 then b.toNat else 0xDC00 + b.toNat))

end Text

end ContractBindings
