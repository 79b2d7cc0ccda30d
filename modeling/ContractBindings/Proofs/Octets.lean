import ContractBindings.Number.Rounding
import ContractBindings.Text.Hex

namespace ContractBindings

/-!
# Bytes read back

Numbers as bytes, bytes as hexadecimal digits and texts as UTF-8 are read back
by the readers that stand beside their writers.
-/

theorem twoTo_256 :
    twoTo 256 =
      115792089237316195423570985008687907853269984665640564039457584007913129639936 := by
  decide +kernel

theorem twoTo_255 :
    twoTo 255 =
      57896044618658097711785492504343953926634992332820282019728792003956564819968 := by
  decide +kernel

theorem twoTo_mono
    {fewer more : Nat}
    (fewerBits : fewer ≤ more) :
    twoTo fewer ≤ twoTo more :=
  Nat.pow_le_pow_right (by decide) fewerBits

namespace Octets

@[simp]
theorem length_ofNat
    (width n : Nat) :
    (ofNat width n).length = width := by
  induction width generalizing n with
  | zero =>
      rfl
  | succ width inductionHypothesis =>
      simp [ofNat, inductionHypothesis]

/-- The last byte counts ones, the bytes before it count in steps of 256. -/
theorem toNat_append_byte
    (bytes : Octets)
    (byte : UInt8) :
    toNat (bytes ++ [byte]) = toNat bytes * 256 + byte.toNat := by
  simp [toNat, List.foldl_append]

/-- Bytes read back the number that they were made of, if it fits. -/
theorem toNat_ofNat
    {width n : Nat}
    (fits : n < twoTo (8 * width)) :
    toNat (ofNat width n) = n := by
  induction width generalizing n with
  | zero =>
      have isZero : n = 0 := by
        simpa [twoTo] using fits
      subst isZero
      rfl
  | succ width inductionHypothesis =>
      have shifted : twoTo (8 * (width + 1)) = twoTo (8 * width) * 256 := by
        simp only [twoTo, Nat.mul_add, Nat.pow_eq, Nat.pow_add]
      have leading : n / 256 < twoTo (8 * width) := by
        rw [shifted] at fits
        omega
      rw [ofNat, toNat_append_byte, inductionHypothesis leading]
      have lastByte : (UInt8.ofNat (n % 256)).toNat = n % 256 := by
        simp
      rw [lastByte]
      omega

end Octets

namespace CodePoint

theorem ofNat_val
    (c : CodePoint) :
    ofNat c.val = c := by
  simp [ofNat, c.isLt]

end CodePoint

namespace Octets

theorem hexDigit?_hexDigit
    {n : Nat}
    (below : n < 16) :
    (hexDigit n).hexDigit? = some n := by
  have everyDigit :
      ∀ digit : Fin 16,
        (hexDigit digit.val).hexDigit? = some digit.val := by
    decide
  exact everyDigit ⟨n, below⟩

/-- A digit in either case is no blank. -/
theorem isAsciiBlank_eq_false
    {c : CodePoint}
    {n : Nat}
    (isDigit : c.hexDigit? = some n) :
    isAsciiBlank c = false := by
  simp only [CodePoint.hexDigit?] at isDigit
  simp only [isAsciiBlank, Bool.or_eq_false_iff, decide_eq_false_iff_not,
    Bool.and_eq_false_iff]
  split at isDigit
  · omega
  · split at isDigit
    · omega
    · split at isDigit
      · omega
      · simp at isDigit

/-- Digit pairs without blanks are read alike by both readers. -/
theorem ofSpacedHex?_eq_ofHex?
    {digits : Text}
    {bytes : Octets}
    (read : ofHex? digits = some bytes) :
    ofSpacedHex? digits = some bytes := by
  induction digits using ofHex?.induct generalizing bytes with
  | case1 =>
      exact read
  | case2 digit =>
      simp [ofHex?] at read
  | case3 high low rest h l lowDigit highDigit inductionHypothesis =>
      simp only [ofHex?, lowDigit, highDigit, Option.map_eq_some_iff] at read
      obtain ⟨others, restRead, rfl⟩ := read
      rw [ofSpacedHex?, isAsciiBlank_eq_false highDigit]
      simp [highDigit, lowDigit, inductionHypothesis restRead]
  | case4 high low rest noDigits =>
      simp [ofHex?] at read

/-- Digit pairs are twice as many as the bytes that they write. -/
theorem length_of_ofHex?
    {digits : Text}
    {bytes : Octets}
    (read : ofHex? digits = some bytes) :
    digits.length = 2 * bytes.length := by
  induction digits using ofHex?.induct generalizing bytes with
  | case1 =>
      simp only [ofHex?, Option.some.injEq] at read
      subst read
      rfl
  | case2 digit =>
      simp [ofHex?] at read
  | case3 high low rest h l lowDigit highDigit inductionHypothesis =>
      simp only [ofHex?, lowDigit, highDigit, Option.map_eq_some_iff] at read
      obtain ⟨others, restRead, rfl⟩ := read
      simp [inductionHypothesis restRead]
      omega
  | case4 high low rest noDigits =>
      simp [ofHex?] at read

/-- Bytes are read back from their digits. -/
theorem ofHex?_toHex
    (bytes : Octets) :
    ofHex? (toHex bytes) = some bytes := by
  induction bytes with
  | nil =>
      rfl
  | cons byte bytes inductionHypothesis =>
      have small := byte.toNat_lt
      have highDigit := hexDigit?_hexDigit (n := byte.toNat / 16) (by omega)
      have lowDigit := hexDigit?_hexDigit (n := byte.toNat % 16) (by omega)
      have whole : 16 * (byte.toNat / 16) + byte.toNat % 16 = byte.toNat := by
        omega
      change ofHex? (hexDigit (byte.toNat / 16) :: hexDigit (byte.toNat % 16) ::
        toHex bytes) = some (byte :: bytes)
      rw [ofHex?, highDigit, lowDigit]
      simp [inductionHypothesis, whole]

theorem ofSpacedHex?_toHex
    (bytes : Octets) :
    ofSpacedHex? (toHex bytes) = some bytes :=
  ofSpacedHex?_eq_ofHex? (ofHex?_toHex bytes)

end Octets

namespace Text

/-- Six bits behind the mark of a continuation byte are read back. -/
theorem continuation?_ofNat
    {bits : Nat}
    (below : bits < 0x40) :
    continuation? (UInt8.ofNat (0x80 + bits)) = some bits := by
  have marked : (UInt8.ofNat (0x80 + bits)).toNat = 0x80 + bits := by
    simp
    omega
  rw [continuation?, marked]
  simp
  omega

/-- A code point in the range of its number of bytes is accepted. -/
theorem inRange?_val
    {c : CodePoint}
    {low high : Nat}
    (notSurrogate : c.isSurrogate = false)
    (atLeast : low ≤ c.val)
    (below : c.val < high) :
    inRange? low high c.val = some c := by
  have outside : ¬ (0xD800 ≤ c.val ∧ c.val ≤ 0xDFFF) := by
    simpa [CodePoint.isSurrogate] using notSurrogate
  rw [inRange?, if_pos ⟨atLeast, below, outside⟩, CodePoint.ofNat_val]

/-- A byte below the marks is a code point. -/
theorem ofUtf8?_oneByte
    {first : UInt8}
    (below : first.toNat < 0x80)
    (rest : Octets) :
    ofUtf8? (first :: rest) = (ofUtf8? rest).map (CodePoint.ofNat first.toNat :: ·) := by
  rw [ofUtf8?.eq_def]
  dsimp only
  rw [if_pos below]

/-- The mark of two bytes is followed by six bits. -/
theorem ofUtf8?_twoBytes
    {first second : UInt8}
    (atLeast : 0xC0 ≤ first.toNat)
    (below : first.toNat < 0xE0)
    {bits : Nat}
    (ofSecond : continuation? second = some bits)
    {c : CodePoint}
    (accepted : inRange? 0x80 0x800 ((first.toNat - 0xC0) * 0x40 + bits) = some c)
    (rest : Octets) :
    ofUtf8? (first :: second :: rest) = (ofUtf8? rest).map (c :: ·) := by
  rw [ofUtf8?.eq_def]
  dsimp only
  rw [if_neg (by omega), if_neg (by omega), if_pos below]
  simp only [ofSecond, accepted]

/-- The mark of three bytes is followed by twelve bits. -/
theorem ofUtf8?_threeBytes
    {first second third : UInt8}
    (atLeast : 0xE0 ≤ first.toNat)
    (below : first.toNat < 0xF0)
    {high low : Nat}
    (ofSecond : continuation? second = some high)
    (ofThird : continuation? third = some low)
    {c : CodePoint}
    (accepted :
      inRange? 0x800 0x10000 (((first.toNat - 0xE0) * 0x40 + high) * 0x40 + low) = some c)
    (rest : Octets) :
    ofUtf8? (first :: second :: third :: rest) = (ofUtf8? rest).map (c :: ·) := by
  rw [ofUtf8?.eq_def]
  dsimp only
  rw [if_neg (by omega), if_neg (by omega), if_neg (by omega), if_pos below]
  simp only [ofSecond, ofThird, accepted]

/-- The mark of four bytes is followed by eighteen bits. -/
theorem ofUtf8?_fourBytes
    {first second third fourth : UInt8}
    (atLeast : 0xF0 ≤ first.toNat)
    {high middle low : Nat}
    (ofSecond : continuation? second = some high)
    (ofThird : continuation? third = some middle)
    (ofFourth : continuation? fourth = some low)
    {c : CodePoint}
    (accepted :
      inRange? 0x10000 0x110000
          ((((first.toNat - 0xF0) * 0x40 + high) * 0x40 + middle) * 0x40 + low) =
        some c)
    (rest : Octets) :
    ofUtf8? (first :: second :: third :: fourth :: rest) = (ofUtf8? rest).map (c :: ·) := by
  rw [ofUtf8?.eq_def]
  dsimp only
  rw [if_neg (by omega), if_neg (by omega), if_neg (by omega), if_neg (by omega)]
  simp only [ofSecond, ofThird, ofFourth, accepted]

theorem toNat_byte
    {n : Nat}
    (fits : n < 256) :
    (UInt8.ofNat n).toNat = n := by
  simp
  omega

/-- A code point other than a surrogate is read back from its bytes. -/
theorem ofUtf8?_append
    {c : CodePoint}
    (notSurrogate : c.isSurrogate = false)
    (rest : Octets) :
    ofUtf8? (c.utf8 ++ rest) = (ofUtf8? rest).map (c :: ·) := by
  have limit := c.isLt
  rw [CodePoint.utf8]
  by_cases oneByte : c.val < 0x80
  · have first := toNat_byte (n := c.val) (by omega)
    simp only [oneByte, ↓reduceIte, List.cons_append, List.nil_append]
    rw [ofUtf8?_oneByte (by rwa [first]), first, CodePoint.ofNat_val]
  simp only [oneByte, ↓reduceIte]
  by_cases twoBytes : c.val < 0x800
  · have first := toNat_byte (n := 0xC0 + c.val / 0x40) (by omega)
    have whole : (0xC0 + c.val / 0x40 - 0xC0) * 0x40 + c.val % 0x40 = c.val := by
      omega
    simp only [twoBytes, ↓reduceIte, List.cons_append, List.nil_append]
    apply ofUtf8?_twoBytes (by omega) (by omega) (continuation?_ofNat (by omega))
    rw [first, whole]
    exact inRange?_val notSurrogate (by omega) twoBytes
  simp only [twoBytes, ↓reduceIte]
  by_cases threeBytes : c.val < 0x10000
  · have first := toNat_byte (n := 0xE0 + c.val / 0x1000) (by omega)
    have whole : ((0xE0 + c.val / 0x1000 - 0xE0) * 0x40 + c.val / 0x40 % 0x40) * 0x40 +
        c.val % 0x40 = c.val := by
      omega
    simp only [threeBytes, ↓reduceIte, List.cons_append, List.nil_append]
    apply ofUtf8?_threeBytes (by omega) (by omega) (continuation?_ofNat (by omega))
      (continuation?_ofNat (by omega))
    rw [first, whole]
    exact inRange?_val notSurrogate (by omega) threeBytes
  · have first := toNat_byte (n := 0xF0 + c.val / 0x40000) (by omega)
    have whole : (((0xF0 + c.val / 0x40000 - 0xF0) * 0x40 + c.val / 0x1000 % 0x40) * 0x40 +
        c.val / 0x40 % 0x40) * 0x40 + c.val % 0x40 = c.val := by
      omega
    simp only [threeBytes, ↓reduceIte, List.cons_append, List.nil_append]
    apply ofUtf8?_fourBytes (by omega) (continuation?_ofNat (by omega))
      (continuation?_ofNat (by omega)) (continuation?_ofNat (by omega))
    rw [first, whole]
    exact inRange?_val notSurrogate (by omega) limit

/-- A text without lone surrogates is read back from its bytes. -/
theorem ofUtf8?_utf8
    {t : Text}
    (scalar : isScalar t = true) :
    ofUtf8? (utf8 t) = some t := by
  induction t with
  | nil =>
      rfl
  | cons c t inductionHypothesis =>
      simp only [isScalar, List.all_cons, Bool.and_eq_true,
        Bool.not_eq_true'] at scalar
      obtain ⟨notSurrogate, restScalar⟩ := scalar
      rw [utf8, List.flatMap_cons, ofUtf8?_append notSurrogate, ← utf8,
        inductionHypothesis restScalar]
      rfl

end Text

end ContractBindings
