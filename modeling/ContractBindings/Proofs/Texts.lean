import ContractBindings.Abi.ArraySuffix
import ContractBindings.Codec.TypeReader
import ContractBindings.Proofs.Octets

namespace ContractBindings

/-!
# Texts in front of texts

What is found in front of a text when it is put together from parts: a start
that is dropped again, the run of digits that writes a number, and the array
suffix at the end.
-/

namespace Text

/-- A start that was put in front is dropped again. -/
@[simp]
theorem dropStart?_append
    (start t : Text) :
    dropStart? (start ++ t) start = some t := by
  induction start with
  | nil =>
      cases t <;> rfl
  | cons c start inductionHypothesis =>
      simp [dropStart?, inductionHypothesis]

/-- A text that begins otherwise has nothing to drop. -/
theorem dropStart?_cons_ne
    {c s : CodePoint}
    (differ : c ≠ s)
    (t start : Text) :
    dropStart? (c :: t) (s :: start) = none := by
  simp [dropStart?, differ]

/-- What is dropped stood in front. -/
theorem eq_append_of_dropStart?
    {t start rest : Text}
    (dropped : dropStart? t start = some rest) :
    t = start ++ rest := by
  induction start generalizing t with
  | nil =>
      cases t <;> simpa [dropStart?] using dropped
  | cons s start inductionHypothesis =>
      cases t with
      | nil =>
          simp [dropStart?] at dropped
      | cons c t =>
          by_cases same : c = s
          · subst same
            simp only [dropStart?, ↓reduceIte] at dropped
            rw [inductionHypothesis dropped, List.cons_append]
          · simp [dropStart?, same] at dropped

/-- What is dropped at the end stood there. -/
theorem eq_append_of_dropEnd?
    {t ending rest : Text}
    (dropped : dropEnd? t ending = some rest) :
    t = rest ++ ending := by
  obtain ⟨reversed, isDropped, rfl⟩ := Option.map_eq_some_iff.mp dropped
  rw [← List.reverse_reverse t, eq_append_of_dropStart? isDropped, List.reverse_append,
    List.reverse_reverse]

theorem startsWith_iff
    {t start : Text} :
    startsWith t start = true ↔ start <+: t := by
  rw [startsWith, Option.isSome_iff_exists]
  constructor
  · rintro ⟨rest, dropped⟩
    exact ⟨rest, (eq_append_of_dropStart? dropped).symm⟩
  · rintro ⟨rest, rfl⟩
    exact ⟨rest, dropStart?_append start rest⟩

theorem endsWith_iff
    {t ending : Text} :
    endsWith t ending = true ↔ ending <:+ t := by
  rw [endsWith, dropEnd?, Option.isSome_map, ← startsWith, startsWith_iff, List.reverse_prefix]

theorem split_ne_nil
    (t : Text)
    (separator : CodePoint) :
    t.split separator ≠ [] := by
  cases t with
  | nil =>
      simp [Text.split]
  | cons c t =>
      rw [Text.split]
      split
      · simp
      · split <;> simp

/-- The parts in front of a separator and behind it are split one after the other. -/
theorem split_append_cons
    (first second : Text)
    (separator : CodePoint) :
    (first ++ separator :: second).split separator =
      first.split separator ++ second.split separator := by
  induction first with
  | nil =>
      simp only [List.nil_append, Text.split, ↓reduceIte, List.singleton_append]
  | cons c first inductionHypothesis =>
      rw [List.cons_append, Text.split, Text.split, inductionHypothesis]
      obtain ⟨part, parts, isSplit⟩ := List.exists_cons_of_ne_nil (split_ne_nil first separator)
      rw [isSplit]
      split <;> rfl

theorem split_eq_singleton
    {t : Text}
    {separator : CodePoint}
    (absent : separator ∉ t) :
    t.split separator = [t] := by
  induction t with
  | nil =>
      rfl
  | cons c t inductionHypothesis =>
      rw [List.mem_cons, not_or] at absent
      rw [Text.split, if_neg (Ne.symm absent.1), inductionHypothesis absent.2]

@[simp]
theorem join_singleton
    (separator part : Text) :
    join separator [part] = part := by
  simp [join, List.intercalate]

/-- A separator stands behind a part that is followed by others. -/
@[simp]
theorem join_cons_cons
    (separator first second : Text)
    (parts : List Text) :
    join separator (first :: second :: parts) =
      first ++ (separator ++ join separator (second :: parts)) := by
  simp [join, List.intercalate]

/-- What holds of all code points of a separator and of parts holds of all of them joined. -/
theorem all_join
    {holds : CodePoint → Bool}
    {separator : Text}
    (separates : separator.all holds = true)
    {parts : List Text}
    (each : ∀ part ∈ parts, part.all holds = true) :
    (join separator parts).all holds = true := by
  induction parts with
  | nil =>
      rfl
  | cons first others inductionHypothesis =>
      cases others with
      | nil =>
          rw [join_singleton]
          exact each first (by simp)
      | cons second others =>
          have rest := inductionHypothesis fun part member => each part (by simp [member])
          have ofFirst := each first (by simp)
          rw [join_cons_cons, List.all_append, List.all_append, ofFirst, separates, rest]
          rfl

/-- What holds of all code points of parts that are joined holds of those of each. -/
theorem all_of_mem_of_all_join
    {holds : CodePoint → Bool}
    {separator : Text}
    {parts : List Text}
    (each : (join separator parts).all holds = true)
    {part : Text}
    (isPart : part ∈ parts) :
    part.all holds = true := by
  induction parts with
  | nil =>
      cases isPart
  | cons first others inductionHypothesis =>
      cases others with
      | nil =>
          rw [List.mem_singleton.mp isPart]
          rwa [join_singleton] at each
      | cons second others =>
          rw [join_cons_cons, List.all_append, List.all_append] at each
          simp only [Bool.and_eq_true] at each
          rcases List.mem_cons.mp isPart with rfl | isOther
          · exact each.1
          · exact inductionHypothesis each.2.2 isOther

theorem isScalar_append
    (first second : Text) :
    isScalar (first ++ second) = (isScalar first && isScalar second) :=
  List.all_append

theorem isScalar_join
    {separator : Text}
    (separates : isScalar separator = true)
    {parts : List Text}
    (each : ∀ part ∈ parts, isScalar part = true) :
    isScalar (join separator parts) = true :=
  all_join separates each

/-- The digit of a number below ten. -/
def digit (n : Nat) : CodePoint :=
  CodePoint.ofNat (0x30 + n)

/-- Digits of numbers below ten are ASCII digits, decimal digits and worth the
number. -/
theorem digit_spec
    {n : Nat}
    (below : n < 10) :
    (digit n).isAsciiDigit = true ∧ (digit n).isDecimalDigit = true ∧
      (digit n).val - 0x30 = n := by
  have everyDigit :
      ∀ m : Fin 10,
        (digit m.val).isAsciiDigit = true ∧ (digit m.val).isDecimalDigit = true ∧
          (digit m.val).val - 0x30 = m.val := by
    decide
  exact everyDigit ⟨n, below⟩

theorem ofNat_of_lt
    {n : Nat}
    (below : n < 10) :
    ofNat n = [digit n] := by
  rw [ofNat, if_pos below]
  rfl

/-- Any other number is written as all but its last digit, and its last digit. -/
theorem ofNat_of_le
    {n : Nat}
    (atLeast : 10 ≤ n) :
    ofNat n = ofNat (n / 10) ++ [digit (n % 10)] := by
  rw [ofNat, if_neg (by omega)]
  rfl

/-- Every code point of a written number is a digit. -/
theorem isDigit_of_mem_ofNat
    {n : Nat}
    {c : CodePoint}
    (member : c ∈ ofNat n) :
    c.isAsciiDigit = true ∧ c.isDecimalDigit = true := by
  induction n using Nat.strongRecOn with
  | ind n inductionHypothesis =>
      by_cases below : n < 10
      · rw [ofNat_of_lt below, List.mem_singleton] at member
        subst member
        exact ⟨(digit_spec below).1, (digit_spec below).2.1⟩
      · rw [ofNat_of_le (by omega), List.mem_append, List.mem_singleton] at member
        rcases member with leading | last
        · exact inductionHypothesis (n / 10) (by omega) leading
        · subst last
          have spec := digit_spec (n := n % 10) (by omega)
          exact ⟨spec.1, spec.2.1⟩

/-- A written number reads as that number. -/
@[simp]
theorem numberOf_ofNat
    (n : Nat) :
    AbiType.numberOf (ofNat n) = n := by
  induction n using Nat.strongRecOn with
  | ind n inductionHypothesis =>
      by_cases below : n < 10
      · rw [ofNat_of_lt below]
        simp [AbiType.numberOf, (digit_spec below).2.2]
      · have leading := inductionHypothesis (n / 10) (by omega)
        have last := (digit_spec (n := n % 10) (by omega)).2.2
        rw [AbiType.numberOf] at leading
        rw [ofNat_of_le (by omega), AbiType.numberOf, List.foldl_append, leading]
        simp only [List.foldl_cons, List.foldl_nil, last]
        omega

/-- A written number is not empty, and only zero begins with a zero. -/
theorem ofNat_eq_cons
    (n : Nat) :
    ∃ first digits, ofNat n = first :: digits ∧ (n ≠ 0 → first ≠ '0') := by
  induction n using Nat.strongRecOn with
  | ind n inductionHypothesis =>
      by_cases below : n < 10
      · refine ⟨digit n, [], ofNat_of_lt below, ?_⟩
        intro notZero isZero
        have worth := (digit_spec below).2.2
        rw [isZero] at worth
        exact notZero worth.symm
      · obtain ⟨first, digits, written, notZero⟩ :=
          inductionHypothesis (n / 10) (by omega)
        refine ⟨first, digits ++ [digit (n % 10)], ?_, fun _ => notZero (by omega)⟩
        rw [ofNat_of_le (by omega), written, List.cons_append]

/-- Different numbers have different digits. -/
theorem ofNat_injective
    {m n : Nat}
    (sameDigits : ofNat m = ofNat n) :
    m = n := by
  rw [← numberOf_ofNat m, sameDigits, numberOf_ofNat]

theorem ofNat_ne_nil
    (n : Nat) :
    ofNat n ≠ [] := by
  obtain ⟨first, digits, written, -⟩ := ofNat_eq_cons n
  rw [written]
  exact List.cons_ne_nil first digits

theorem tenTo_ne_zero
    (digits : Nat) :
    tenTo digits ≠ 0 :=
  Nat.pos_iff_ne_zero.mp (Nat.pow_pos (by decide))

/-- A number is below ten to the number of its digits. -/
theorem lt_tenTo_length_ofNat
    (n : Nat) :
    n < tenTo (ofNat n).length := by
  induction n using Nat.strongRecOn with
  | ind n inductionHypothesis =>
      by_cases below : n < 10
      · rw [ofNat_of_lt below]
        exact below
      · have leading := inductionHypothesis (n / 10) (by omega)
        rw [ofNat_of_le (by omega), List.length_append, List.length_singleton]
        have tenfold : tenTo ((ofNat (n / 10)).length + 1) =
            tenTo (ofNat (n / 10)).length * 10 :=
          rfl
        omega

/-- A number from a power of ten on has more digits than the power. -/
theorem lt_length_ofNat
    {n digits : Nat}
    (atLeast : tenTo digits ≤ n) :
    digits < (ofNat n).length := by
  have below := lt_tenTo_length_ofNat n
  refine Nat.lt_of_not_le fun fewer => ?_
  have smaller : tenTo (ofNat n).length ≤ tenTo digits :=
    Nat.pow_le_pow_right (by decide) fewer
  omega

/-- An array suffix behind a text without line breaks is dropped again. -/
theorem dropArraySuffix?_append
    {t digits : Text}
    (oneLine : ∀ c ∈ t, c ≠ '\n')
    (areDigits : ∀ c ∈ digits, c.isDecimalDigit = true) :
    dropArraySuffix? (t ++ ("[" ++ digits ++ "]")) = some t := by
  have closing : Text.ofString "]" = [CodePoint.ofChar ']'] := rfl
  have opening : Text.ofString "[" = [CodePoint.ofChar '['] := rfl
  have lineBreak : Text.ofString "\n" = [CodePoint.ofChar '\n'] := rfl
  have reversed : (t ++ ("[" ++ digits ++ "]")).reverse =
      CodePoint.ofChar ']' :: (digits.reverse ++ CodePoint.ofChar '[' :: t.reverse) := by
    rw [closing, opening]
    simp
  have noLineBreak : dropLineBreak (t ++ ("[" ++ digits ++ "]")) =
      t ++ ("[" ++ digits ++ "]") := by
    rw [dropLineBreak, dropEnd?, reversed, lineBreak]
    have kept : dropStart?
        (CodePoint.ofChar ']' :: (digits.reverse ++ CodePoint.ofChar '[' :: t.reverse))
        [CodePoint.ofChar '\n'].reverse = none :=
      dropStart?_cons_ne (by decide) _ _
    rw [kept]
    rfl
  have pastDigits : (digits.reverse ++ CodePoint.ofChar '[' :: t.reverse).dropWhile
      CodePoint.isDecimalDigit = CodePoint.ofChar '[' :: t.reverse := by
    rw [List.dropWhile_append_of_pos (by simpa using areDigits)]
    rw [List.dropWhile_cons_of_neg (by decide)]
  have before : (t.reverse.any fun c => decide (c = '\n')) = false := by
    simpa using oneLine
  rw [dropArraySuffix?, noLineBreak, reversed]
  simp only [↓reduceIte, pastDigits, before, and_self, List.reverse_reverse]

/-- A text that ends in neither a bracket nor a line break has no array suffix. -/
theorem dropArraySuffix?_eq_none
    {t : Text}
    {last : CodePoint}
    {rest : Text}
    (reversed : t.reverse = last :: rest)
    (notBracket : last ≠ ']')
    (notLineBreak : last ≠ '\n') :
    dropArraySuffix? t = none := by
  have lineBreak : Text.ofString "\n" = [CodePoint.ofChar '\n'] := rfl
  have kept : dropLineBreak t = t := by
    rw [dropLineBreak, dropEnd?, reversed, lineBreak]
    have noBreak : dropStart? (last :: rest) [CodePoint.ofChar '\n'].reverse = none :=
      dropStart?_cons_ne notLineBreak _ _
    rw [noBreak]
    rfl
  rw [dropArraySuffix?, kept, reversed]
  simp only [notBracket, ↓reduceIte]

end Text

end ContractBindings
