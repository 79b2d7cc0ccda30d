import ContractBindings.Codec.Decoding
import ContractBindings.Codec.Encoding
import ContractBindings.Proofs.Octets

namespace ContractBindings

/-!
# Single values read back

Every kind of value that takes one word, and every byte string and text behind
its length, is decoded from its encoding, whatever follows it.
-/

namespace Encoding

@[simp]
theorem length_word
    (n : Nat) :
    (word n).length = 32 :=
  Octets.length_ofNat 32 n

theorem length_padded
    (bytes : Octets) :
    (padded bytes).length = Decoding.wholeWords bytes.length := by
  simp only [padded, padding, List.length_append, List.length_replicate,
    Decoding.wholeWords]
  omega

/-- Counted bytes take a word more than the padded ones. -/
theorem length_counted
    (bytes : Octets) :
    (counted bytes).length = 32 + Decoding.wholeWords bytes.length := by
  simp [counted, length_padded]

/-- An address is encoded from twenty bytes. -/
theorem length_of_addressBytes?
    {v : Value}
    {bytes : Octets}
    (isAddress : addressBytes? v = some bytes) :
    bytes.length = 20 := by
  cases v with
  | bytes given =>
      simp only [addressBytes?] at isAddress
      split at isAddress
      · next isTwenty =>
          cases isAddress
          exact isTwenty
      · cases isAddress
  | text digits =>
      simp only [addressBytes?] at isAddress
      split at isAddress
      · next isForty =>
          have twice := Octets.length_of_ofHex? isAddress
          omega
      · cases isAddress
  | _ =>
      cases isAddress

end Encoding

namespace Decoding

theorem take_append
    {count : Nat}
    {bytes : Octets}
    (isCount : bytes.length = count)
    (rest : Octets) :
    take count (bytes ++ rest) = .ok (bytes, rest) := by
  subst isCount
  simp [take]

/-- A number that fits into a word is read back from it. -/
theorem takeWord_word
    {n : Nat}
    (fits : n < twoTo 256)
    (rest : Octets) :
    takeWord (Encoding.word n ++ rest) = .ok (n, rest) := by
  rw [takeWord, take_append (Encoding.length_word n)]
  have readBack : Octets.toNat (Encoding.word n) = n :=
    Octets.toNat_ofNat fits
  simp [bind, Except.bind, pure, Except.pure, readBack]

/-- The word of an integer is read as that integer. -/
theorem signed_emod
    {i : Int}
    (atLeast : -(twoTo 255 : Int) ≤ i)
    (below : i < twoTo 255) :
    signed (i % (twoTo 256 : Int)).toNat = i := by
  rw [twoTo_255] at atLeast below
  simp only [signed, twoTo_255, twoTo_256]
  split <;> omega

/-- The residue of an integer fits into a word. -/
theorem toNat_emod_lt
    (i : Int) :
    (i % (twoTo 256 : Int)).toNat < twoTo 256 := by
  rw [twoTo_256]
  omega

/-- An integer in the range of its type is read back. -/
theorem takeInteger_signedWord
    {isSigned : Bool}
    {bits : Nat}
    {i : Int}
    (isWidth : 1 ≤ bits ∧ bits ≤ 256)
    (atLeast : (Encoding.integerRange isSigned bits).1 ≤ i)
    (atMost : i ≤ (Encoding.integerRange isSigned bits).2)
    (rest : Octets) :
    takeInteger isSigned bits (Encoding.signedWord i ++ rest) = .ok (i, rest) := by
  rw [takeInteger, Encoding.signedWord, takeWord_word (toNat_emod_lt i)]
  cases isSigned with
  | true =>
      simp only [Encoding.integerRange, ↓reduceIte] at atLeast atMost
      have narrower : twoTo (bits - 1) ≤ twoTo 255 :=
        twoTo_mono (by omega)
      have readBack := signed_emod (i := i) (by omega) (by omega)
      simp only [bind, Except.bind, pure, Except.pure, ↓reduceIte, readBack]
      rw [if_pos ⟨atLeast, by omega⟩]
  | false =>
      simp only [Encoding.integerRange, Bool.false_eq_true, ↓reduceIte] at atLeast atMost
      have narrower : twoTo bits ≤ twoTo 256 :=
        twoTo_mono isWidth.2
      have unchanged : (i % (twoTo 256 : Int)).toNat = i.toNat := by
        rw [Int.emod_eq_of_lt atLeast (by omega)]
      simp only [bind, Except.bind, pure, Except.pure, Bool.false_eq_true, ↓reduceIte,
        unchanged]
      rw [if_pos (by omega), Int.toNat_of_nonneg atLeast]

theorem takeBool_word
    (b : Bool)
    (rest : Octets) :
    takeBool (Encoding.word (if b then 1 else 0) ++ rest) = .ok (b, rest) := by
  have fits : (if b then 1 else 0) < twoTo 256 := by
    rw [twoTo_256]
    cases b <;> decide
  rw [takeBool, takeWord_word fits]
  cases b <;> rfl

/-- An address is read back as the digits of its bytes. -/
theorem takeAddress_append
    {bytes : Octets}
    (isTwenty : bytes.length = 20)
    (rest : Octets) :
    takeAddress (List.replicate 12 0 ++ bytes ++ rest) =
      .ok ("0x" ++ Octets.toHex bytes, rest) := by
  have isWord : (List.replicate 12 (0 : UInt8) ++ bytes).length = 32 := by
    simp [isTwenty]
  rw [takeAddress, take_append isWord]
  simp [bind, Except.bind, pure, Except.pure]

/-- Bytes of a fixed size are read back with the zeros that fill the size. -/
theorem takeFixedBytes_append
    {size : Nat}
    {bytes : Octets}
    (atMost : bytes.length ≤ size)
    (inWord : size ≤ 32)
    (rest : Octets) :
    takeFixedBytes size (bytes ++ List.replicate (32 - bytes.length) 0 ++ rest) =
      .ok (bytes ++ List.replicate (size - bytes.length) 0, rest) := by
  have isWord : (bytes ++ List.replicate (32 - bytes.length) (0 : UInt8)).length = 32 := by
    simp
    omega
  have inFront :
      (bytes ++ List.replicate (32 - bytes.length) (0 : UInt8)).take size =
        bytes ++ List.replicate (size - bytes.length) 0 := by
    rw [List.take_append, List.take_of_length_le atMost, List.take_replicate]
    congr 2
    omega
  have zeros :
      (bytes ++ List.replicate (32 - bytes.length) (0 : UInt8)).drop size =
        List.replicate (32 - size) 0 := by
    rw [List.drop_append, List.drop_of_length_le atMost, List.drop_replicate]
    simp only [List.nil_append]
    congr 1
    omega
  rw [takeFixedBytes, take_append isWord]
  simp only [bind, Except.bind, pure, Except.pure, inFront, zeros]
  simp

/-- Bytes behind their number are read back, unless there are more of them than
memory can hold. -/
theorem takeBytes_counted
    {bytes : Octets}
    (holdable : Decoding.wholeWords bytes.length < twoTo 63)
    (rest : Octets) :
    takeBytes (Encoding.counted bytes ++ rest) = .ok (bytes, rest) := by
  have fits : bytes.length < twoTo 256 := by
    have wider : twoTo 63 ≤ twoTo 256 := twoTo_mono (by omega)
    have whole : bytes.length ≤ wholeWords bytes.length := by
      simp only [wholeWords]
      omega
    omega
  rw [takeBytes, Encoding.counted, List.append_assoc, takeWord_word fits]
  simp only [bind, Except.bind]
  rw [if_neg (by omega), take_append (Encoding.length_padded bytes)]
  simp [pure, Except.pure, Encoding.padded, Encoding.padding]

/-- More bytes than memory can hold are refused for their number. -/
theorem takeBytes_tooLong
    {bytes : Octets}
    (fits : bytes.length < twoTo 256)
    (tooLong : twoTo 63 ≤ wholeWords bytes.length)
    (rest : Octets) :
    takeBytes (Encoding.counted bytes ++ rest) = .error .tooLong := by
  rw [takeBytes, Encoding.counted, List.append_assoc, takeWord_word fits]
  simp only [bind, Except.bind]
  rw [if_pos tooLong]

/-- A text without lone surrogates is read back. -/
theorem takeText_counted
    {t : Text}
    (scalar : Text.isScalar t = true)
    (holdable : Decoding.wholeWords (Text.utf8 t).length < twoTo 63)
    (rest : Octets) :
    takeText (Encoding.counted (Text.utf8 t) ++ rest) = .ok (t, rest) := by
  rw [takeText, takeBytes_counted holdable]
  simp only [bind, Except.bind, Text.ofUtf8?_utf8 scalar]
  rfl

end Decoding

end ContractBindings
