import Mathlib.Algebra.Ring.Parity
import ContractBindings.Call.ByteString
import ContractBindings.Proofs.LegibleTypes
import ContractBindings.Proofs.TypeBases

namespace ContractBindings

/-!
# Byte strings made of hexadecimal text

A byte string is made of hexadecimal text, with a mark in front or without one, if there are as
many digits as its type has room for.  The pattern for such text ends where the text does or in
front of a line break that ends it.

Main statement: what is made of a text is told by the text.  There is a byte string exactly if
the text, without a line break that may end it, is hexadecimal and of the right length, and it is
the one with these digits; any other text is refused for its digits or for its length.  Every
byte string is made of its own text again.
-/

namespace Octets

/-- The digits of hexadecimal text. -/
def hexDigits : Text :=
  "0123456789abcdefABCDEF"

theorem exists_hexDigit?
    {c : CodePoint}
    (isDigit : c ∈ hexDigits) :
    ∃ n, c.hexDigit? = some n := by
  have areDigits : hexDigits.all (·.hexDigit?.isSome) = true := by
    decide
  exact Option.isSome_iff_exists.mp (List.all_eq_true.mp areDigits c isDigit)

/-- What is read as a digit is one, and written it is the small digit. -/
theorem mem_hexDigits_of_hexDigit?
    {c : CodePoint}
    {n : Nat}
    (isRead : c.hexDigit? = some n) :
    c ∈ hexDigits ∧ n < 16 ∧ hexDigit n = c.toAsciiLower := by
  have isAscii : c.val < 128 := by
    rw [CodePoint.hexDigit?] at isRead
    split at isRead
    · omega
    · split at isRead
      · omega
      · split at isRead
        · omega
        · cases isRead
  have ofAscii :
      ∀ m : Fin 128, (CodePoint.ofNat m).hexDigit?.all fun n =>
        decide (CodePoint.ofNat m ∈ hexDigits ∧ n < 16 ∧
          hexDigit n = (CodePoint.ofNat m).toAsciiLower) := by
    decide +kernel
  have ofDigit := ofAscii ⟨c.val, isAscii⟩
  rw [CodePoint.ofNat_val, isRead] at ofDigit
  exact of_decide_eq_true ofDigit

/-- Digits in pairs are read as bytes. -/
theorem exists_ofHex?
    {digits : Text}
    (areDigits : ∀ c ∈ digits, c ∈ hexDigits)
    (inPairs : Even digits.length) :
    ∃ bytes, ofHex? digits = some bytes := by
  induction digits using ofHex?.induct with
  | case1 =>
      exact ⟨[], rfl⟩
  | case2 digit =>
      exact absurd inPairs Nat.not_even_one
  | case3 high low rest h l lowDigit highDigit inductionHypothesis =>
      have restInPairs : Even rest.length :=
        (Nat.even_add.mp (show Even (rest.length + 2) from inPairs)).mpr even_two
      obtain ⟨bytes, isRead⟩ := inductionHypothesis
        (fun c member => areDigits c (.tail _ (.tail _ member))) restInPairs
      exact ⟨UInt8.ofNat (16 * h + l) :: bytes, by simp [ofHex?, highDigit, lowDigit, isRead]⟩
  | case4 high low rest noDigits =>
      obtain ⟨h, highDigit⟩ := exists_hexDigit? (areDigits high (.head _))
      obtain ⟨l, lowDigit⟩ := exists_hexDigit? (areDigits low (.tail _ (.head _)))
      exact (noDigits h l highDigit lowDigit).elim

/-- What is read as bytes are digits in pairs, and the bytes are written with the same digits,
all of them small. -/
theorem digits_of_ofHex?
    {digits : Text}
    {bytes : Octets}
    (isRead : ofHex? digits = some bytes) :
    (∀ c ∈ digits, c ∈ hexDigits) ∧ toHex bytes = Text.toAsciiLower digits := by
  induction digits using ofHex?.induct generalizing bytes with
  | case1 =>
      cases isRead
      exact ⟨List.forall_mem_nil _, rfl⟩
  | case2 digit =>
      simp [ofHex?] at isRead
  | case3 high low rest h l lowDigit highDigit inductionHypothesis =>
      simp only [ofHex?, lowDigit, highDigit, Option.map_eq_some_iff] at isRead
      obtain ⟨others, restRead, rfl⟩ := isRead
      obtain ⟨restDigits, sameRest⟩ := inductionHypothesis restRead
      obtain ⟨isHigh, highBelow, sameHigh⟩ := mem_hexDigits_of_hexDigit? highDigit
      obtain ⟨isLow, lowBelow, sameLow⟩ := mem_hexDigits_of_hexDigit? lowDigit
      have ofByte : (UInt8.ofNat (16 * h + l)).toNat = 16 * h + l := by
        rw [UInt8.toNat_ofNat']
        omega
      have ofHigh : (16 * h + l) / 16 = h := by
        omega
      have ofLow : (16 * h + l) % 16 = l := by
        omega
      refine ⟨List.forall_mem_cons.mpr ⟨isHigh, List.forall_mem_cons.mpr ⟨isLow, restDigits⟩⟩, ?_⟩
      rw [toHex, List.flatMap_cons, ofByte, ofHigh, ofLow, sameHigh, sameLow]
      exact congrArg (high.toAsciiLower :: low.toAsciiLower :: ·) sameRest
  | case4 high low rest noDigits =>
      simp [ofHex?] at isRead

end Octets

namespace ByteStringType

/-!
## The text
-/

/-- Hexadecimal text with its digits: an even number of them, and in front of them a mark or
nothing. -/
structure IsHexText (t digits : Text) : Prop where
  isWritten : t = digits ∨ t = "0x" ++ digits ∨ t = "0X" ++ digits
  areDigits : ∀ c ∈ digits, c ∈ Octets.hexDigits
  inPairs : Even digits.length

/-- Hexadecimal text that a line break may end. -/
def IsHexLine (t digits : Text) : Prop :=
  ∃ inner ending, IsHexText inner digits ∧ Text.IsEnding ending ∧ t = inner ++ ending

theorem IsHexText.getLast?_ne
    {t digits : Text}
    (isHex : IsHexText t digits) :
    t.getLast? ≠ some '\n' := by
  have noDigit : CodePoint.ofChar '\n' ∉ Octets.hexDigits := by
    decide
  have notMem : CodePoint.ofChar '\n' ∉ digits :=
    fun member => noDigit (isHex.areDigits _ member)
  intro isLast
  have member := List.mem_of_getLast? isLast
  rcases isHex.isWritten with rfl | rfl | rfl
  · exact notMem member
  · exact notMem ((List.mem_append.mp member).resolve_left (by decide))
  · exact notMem ((List.mem_append.mp member).resolve_left (by decide))

theorem isHexLine_iff
    {t digits : Text} :
    IsHexLine t digits ↔ IsHexText (Text.dropLineBreak t) digits := by
  constructor
  · rintro ⟨inner, ending, isHex, isEnding, rfl⟩
    rwa [Text.dropLineBreak_append_ending isEnding isHex.getLast?_ne]
  · intro isHex
    obtain ⟨ending, isEnding, isWhole⟩ := Text.dropLineBreak_append t
    exact ⟨Text.dropLineBreak t, ending, isHex, isEnding, isWhole⟩

/-- A mark in front of digits is dropped, and digits have none. -/
theorem bytesOfHex?_of_isHexText
    {t digits : Text}
    (isHex : IsHexText (Text.dropLineBreak t) digits) :
    bytesOfHex? t = Octets.ofHex? digits := by
  have noMark : ∀ mark : Text, ¬ mark ⊆ Octets.hexDigits → Text.dropStart? digits mark = none := by
    intro mark noDigits
    cases dropped : Text.dropStart? digits mark with
    | none =>
        rfl
    | some rest =>
        refine absurd (fun c member => isHex.areDigits c ?_) noDigits
        rw [Text.eq_append_of_dropStart? dropped]
        exact List.mem_append_left rest member
  rw [bytesOfHex?, ← Text.dropLineBreak]
  rcases isHex.isWritten with same | same | same
  · rw [same, noMark "0x" (by decide), noMark "0X" (by decide)]
    rfl
  · rw [same, Text.dropStart?_append]
    rfl
  · have noSmallMark : Text.dropStart? ("0X" ++ digits) "0x" = none := by
      cases digits <;> rfl
    rw [same, noSmallMark, Text.dropStart?_append]
    rfl

/-- Digits that are read as bytes are hexadecimal text, with a mark or without one. -/
theorem IsHexText.of_ofHex?
    {t digits : Text}
    {bytes : Octets}
    (isRead : Octets.ofHex? digits = some bytes)
    (isWritten : t = digits ∨ t = "0x" ++ digits ∨ t = "0X" ++ digits) :
    IsHexText t digits := by
  refine ⟨isWritten, (Octets.digits_of_ofHex? isRead).1, ?_⟩
  rw [Octets.length_of_ofHex? isRead]
  exact even_two_mul bytes.length

/-- What is read as bytes is hexadecimal text. -/
theorem exists_isHexText_of_bytesOfHex?
    {t : Text}
    {bytes : Octets}
    (isRead : bytesOfHex? t = some bytes) :
    ∃ digits, IsHexText (Text.dropLineBreak t) digits ∧ Octets.ofHex? digits = some bytes := by
  rw [bytesOfHex?, ← Text.dropLineBreak] at isRead
  cases smallMark : Text.dropStart? (Text.dropLineBreak t) "0x" with
  | some digits =>
      rw [smallMark] at isRead
      exact
        ⟨digits, .of_ofHex? isRead (.inr (.inl (Text.eq_append_of_dropStart? smallMark))), isRead⟩
  | none =>
      cases capitalMark : Text.dropStart? (Text.dropLineBreak t) "0X" with
      | some digits =>
          rw [smallMark, capitalMark] at isRead
          exact
            ⟨digits, .of_ofHex? isRead (.inr (.inr (Text.eq_append_of_dropStart? capitalMark))),
              isRead⟩
      | none =>
          rw [smallMark, capitalMark] at isRead
          exact ⟨Text.dropLineBreak t, .of_ofHex? isRead (.inl rfl), isRead⟩

/-!
## The byte string
-/

/-- A byte string has the length of its type, if that has one. -/
def HasLength (type : ByteStringType) (count : Nat) : Prop :=
  ∀ length, type.length = some length → (count : Int) = length

theorem make_bytes
    {type : ByteStringType}
    {bytes : Octets}
    (hasLength : type.HasLength bytes.length) :
    type.make (.bytes bytes) = .ok bytes := by
  have passes : type.checkLength (.bytes bytes) = .ok () := by
    cases isLength : type.length with
    | none =>
        rw [checkLength, isLength]
    | some length =>
        rw [checkLength, isLength]
        exact if_pos (hasLength length isLength)
  change (type.checkLength (.bytes bytes) >>= fun _ => _) = _
  rw [passes]
  rfl

theorem make_bytes_of_ne
    {type : ByteStringType}
    {bytes : Octets}
    {length : Int}
    (isLength : type.length = some length)
    (differs : (bytes.length : Int) ≠ length) :
    type.make (.bytes bytes) = .error (.wrongLength type length bytes.length) := by
  have fails :
      type.checkLength (.bytes bytes) = .error (.wrongLength type length bytes.length) := by
    rw [checkLength, isLength]
    exact if_neg differs
  change (type.checkLength (.bytes bytes) >>= fun _ => _) = _
  rw [fails]
  rfl

/-- Text is read, and the byte string is made of the bytes. -/
theorem make_text
    (type : ByteStringType)
    (t : Text) :
    type.make (.text t) = type.ofHex (.text t) := by
  change (_ >>= fun v => _) = (type.readHex t >>= fun bytes => type.make (.bytes bytes))
  cases type.readHex t <;> rfl

/-- What is made of a text. -/
inductive MakesOfText (type : ByteStringType) (t : Text) :
    Except ByteStringFailure Octets → Prop where
  /-- It is hexadecimal, and there are as many bytes as the type has. -/
  | accepted {digits : Text} {bytes : Octets} (isHex : IsHexLine t digits)
      (hasLength : ∀ length, type.length = some length → (digits.length : Int) = 2 * length)
      (isRead : hexText bytes = "0x" ++ Text.toAsciiLower digits) : MakesOfText type t (.ok bytes)
  /-- It is not hexadecimal. -/
  | notHex (noHex : ∀ digits, ¬ IsHexLine t digits) : MakesOfText type t (.error (.notHex type t))
  /-- It is hexadecimal, and there are more bytes or fewer than the type has. -/
  | wrongLength {digits : Text} {length : Int} {count : Nat} (isHex : IsHexLine t digits)
      (isCount : digits.length = 2 * count) (isLength : type.length = some length)
      (differs : (count : Int) ≠ length) :
      MakesOfText type t (.error (.wrongLength type length count))

theorem readHex_of_isHexLine
    (type : ByteStringType)
    {t digits : Text}
    (isHex : IsHexLine t digits) :
    ∃ bytes, type.readHex t = .ok bytes ∧ digits.length = 2 * bytes.length ∧
      hexText bytes = "0x" ++ Text.toAsciiLower digits := by
  have inner := isHexLine_iff.mp isHex
  obtain ⟨bytes, isRead⟩ := Octets.exists_ofHex? inner.areDigits inner.inPairs
  refine ⟨bytes, ?_, Octets.length_of_ofHex? isRead, ?_⟩
  · rw [readHex, bytesOfHex?_of_isHexText inner, isRead]
  · rw [hexText, (Octets.digits_of_ofHex? isRead).2]

theorem make_text_of_makesOfText
    {type : ByteStringType}
    {t : Text}
    {result : Except ByteStringFailure Octets}
    (makes : MakesOfText type t result) :
    type.make (.text t) = result := by
  rw [make_text]
  change (type.readHex t >>= fun bytes => type.make (.bytes bytes)) = result
  cases makes with
  | @accepted digits bytes isHex hasLength isRead =>
      obtain ⟨read, isOk, asMany, sameText⟩ := readHex_of_isHexLine type isHex
      have same : read = bytes :=
        Octets.toHex_injective (List.append_cancel_left (sameText.trans isRead.symm))
      rw [isOk, ← same]
      refine make_bytes fun length isLength => ?_
      have := hasLength length isLength
      omega
  | notHex noHex =>
      have isError : type.readHex t = .error (.notHex type t) := by
        rw [readHex]
        cases isRead : bytesOfHex? t with
        | none =>
            rfl
        | some bytes =>
            obtain ⟨digits, isHex, -⟩ := exists_isHexText_of_bytesOfHex? isRead
            exact absurd (isHexLine_iff.mpr isHex) (noHex digits)
      rw [isError]
      rfl
  | @wrongLength digits length count isHex isCount isLength differs =>
      obtain ⟨read, isOk, asMany, -⟩ := readHex_of_isHexLine type isHex
      have sameCount : read.length = count := by
        omega
      rw [isOk, ← sameCount]
      exact make_bytes_of_ne isLength (sameCount ▸ differs)

/-- Every text is hexadecimal and long enough, or it is refused for one of the two. -/
theorem exists_makesOfText
    (type : ByteStringType)
    (t : Text) :
    ∃ result, MakesOfText type t result := by
  by_cases existsHex : ∃ digits, IsHexLine t digits
  · obtain ⟨digits, isHex⟩ := existsHex
    obtain ⟨bytes, -, asMany, sameText⟩ := readHex_of_isHexLine type isHex
    by_cases hasLength : type.HasLength bytes.length
    · refine ⟨.ok bytes, .accepted isHex (fun length isLength => ?_) sameText⟩
      have := hasLength length isLength
      omega
    · simp only [HasLength, not_forall] at hasLength
      obtain ⟨length, isLength, differs⟩ := hasLength
      exact ⟨_, .wrongLength isHex asMany isLength differs⟩
  · exact ⟨_, .notHex (not_exists.mp existsHex)⟩

/-- A byte string of a type is made of what it is written as. -/
theorem make_hexText
    {type : ByteStringType}
    {bytes : Octets}
    (hasLength : type.HasLength bytes.length) :
    type.make (.text (hexText bytes)) = .ok bytes := by
  have isRead := Octets.ofHex?_toHex bytes
  have inPairs := Octets.length_of_ofHex? isRead
  have isHex : IsHexLine (hexText bytes) (Octets.toHex bytes) :=
    ⟨hexText bytes, [], .of_ofHex? isRead (.inr (.inl rfl)), .inl rfl, (List.append_nil _).symm⟩
  refine make_text_of_makesOfText (.accepted isHex (fun length isLength => ?_) ?_)
  · have := hasLength length isLength
    omega
  · rw [← (Octets.digits_of_ofHex? isRead).2]
    rfl

/-- What is made of a text is a byte string exactly if the text is hexadecimal, a line break at
its end not counted, with as many digits as the type wants, and then it is written with the same
digits in small letters.  All other texts are refused with a message.  Every byte string of a
type is made of what it is written as. -/
theorem make_text_eq_iff
    (type : ByteStringType) :
    (∀ t result, type.make (.text t) = result ↔ MakesOfText type t result) ∧
      (∀ t failure, type.make (.text t) = .error failure → failure.message?.isSome = true) ∧
      ∀ bytes, type.HasLength bytes.length → type.ofHex (.text (hexText bytes)) = .ok bytes := by
  have isTold : ∀ t result, type.make (.text t) = result ↔ MakesOfText type t result := by
    intro t result
    refine ⟨?_, make_text_of_makesOfText⟩
    rintro rfl
    obtain ⟨result, makes⟩ := exists_makesOfText type t
    rwa [make_text_of_makesOfText makes]
  refine ⟨isTold, fun t failure isError => ?_, fun bytes hasLength => ?_⟩
  · cases (isTold t (.error failure)).mp isError with
    | notHex =>
        rfl
    | wrongLength =>
        rfl
  · rw [← make_text, make_hexText hasLength]

/-- A byte string is made of a text that is not hexadecimal to its end. -/
theorem make_text_lineBreak :
    (⟨"Bytes1", some 1⟩ : ByteStringType).make (.text "ab\n") = .ok [0xab] ∧
      ∀ digits, ¬ IsHexText "ab\n" digits := by
  refine ⟨by decide +kernel, fun digits isHex => isHex.getLast?_ne ?_⟩
  rfl

end ByteStringType

end ContractBindings
