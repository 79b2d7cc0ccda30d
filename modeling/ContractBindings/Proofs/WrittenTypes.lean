import Mathlib.Data.List.Induction
import Mathlib.Data.List.TakeWhile
import ContractBindings.Proofs.Steps
import ContractBindings.Proofs.TypeReading

namespace ContractBindings

/-!
# Types as they may be written

Types are told apart twice: by their text, where brackets may hold decimal digits
of any script and a line break may stand at the end, and by their form, where sizes
are ASCII digits without leading zeros.  A text that both ways of reading accept is
a word or a tuple with array suffixes whose sizes are written as numbers are, and
nothing follows the last suffix.
-/

namespace CodePoint

/-- Decimal digits outside of ASCII come long after it. -/
theorem isAsciiDigit_or_le
    {c : CodePoint}
    (isDigit : c.isDecimalDigit = true) :
    c.isAsciiDigit = true ∨ 0x660 ≤ c.val := by
  rw [isDecimalDigit, decimalDigit?, Option.isSome_map, List.find?_isSome] at isDigit
  obtain ⟨first, isZero, inRun⟩ := isDigit
  have everyZero : ∀ start ∈ decimalZeros, start = 0x30 ∨ 0x660 ≤ start := by
    decide
  simp only [Bool.and_eq_true, decide_eq_true_eq] at inRun
  simp only [isAsciiDigit, Bool.and_eq_true, decide_eq_true_eq]
  rcases everyZero first isZero with rfl | far
  · omega
  · omega

theorem isAsciiLetter_eq_false
    {c : CodePoint}
    (isDigit : c.isDecimalDigit = true) :
    c.isAsciiLetter = false := by
  have place := isAsciiDigit_or_le isDigit
  simp only [isAsciiDigit, Bool.and_eq_true, decide_eq_true_eq] at place
  simp only [isAsciiLetter, Bool.or_eq_false_iff, Bool.and_eq_false_iff,
    decide_eq_false_iff_not]
  omega

end CodePoint

namespace Text

/-- Digits of which the first is not zero are written by their number, which is
not zero. -/
theorem ofNat_numberOf
    {digits : Text}
    (areDigits : ∀ c ∈ digits, c.isAsciiDigit = true)
    (notEmpty : digits ≠ [])
    (notZero : digits.head? ≠ some '0') :
    ofNat (AbiType.numberOf digits) = digits ∧ AbiType.numberOf digits ≠ 0 := by
  induction digits using List.reverseRecOn with
  | nil =>
      exact absurd rfl notEmpty
  | append_singleton leading last inductionHypothesis =>
      have isDigit : 0x30 ≤ last.val ∧ last.val ≤ 0x39 := by
        simpa [CodePoint.isAsciiDigit] using areDigits last (by simp)
      have isLast : digit (last.val - 0x30) = last := by
        rw [digit, Nat.add_sub_cancel' isDigit.1, CodePoint.ofNat, dif_pos last.isLt]
      have value : AbiType.numberOf (leading ++ [last]) =
          10 * AbiType.numberOf leading + (last.val - 0x30) := by
        rw [AbiType.numberOf, List.foldl_append]
        rfl
      cases leading with
      | nil =>
          have single : AbiType.numberOf [last] = last.val - 0x30 := by
            simp [AbiType.numberOf]
          rw [List.nil_append, single, ofNat_of_lt (by omega), isLast]
          refine ⟨rfl, fun isZero => notZero ?_⟩
          rw [← isLast, isZero]
          rfl
      | cons first others =>
          obtain ⟨written, positive⟩ := inductionHypothesis
            (fun c member => areDigits c (List.mem_append_left _ member)) (by simp) notZero
          rw [value, ofNat_of_le (by omega)]
          refine ⟨?_, by omega⟩
          have quotient : (10 * AbiType.numberOf (first :: others) + (last.val - 0x30)) / 10 =
              AbiType.numberOf (first :: others) := by
            omega
          have remainder : (10 * AbiType.numberOf (first :: others) + (last.val - 0x30)) % 10 =
              last.val - 0x30 := by
            omega
          rw [quotient, remainder, written, isLast]

theorem decimalValue?_ofNat
    (n : Nat) :
    decimalValue? (ofNat n) = some n := by
  have ofDigit :
      ∀ m : Fin 10, (digit m.val).decimalDigit? = some m.val := by
    decide
  induction n using Nat.strongRecOn with
  | ind n inductionHypothesis =>
      by_cases below : n < 10
      · have value := ofDigit ⟨n, below⟩
        rw [ofNat_of_lt below]
        simp only [decimalValue?, List.foldl_cons, List.foldl_nil, value, Option.pure_def,
          Option.bind_eq_bind, Option.bind_some, Nat.mul_zero, Nat.zero_add]
      · have leading := inductionHypothesis (n / 10) (by omega)
        have value := ofDigit ⟨n % 10, by omega⟩
        rw [decimalValue?] at leading
        rw [ofNat_of_le (by omega), decimalValue?, List.foldl_append, leading]
        simp only [List.foldl_cons, List.foldl_nil, value, Option.pure_def,
          Option.bind_eq_bind, Option.bind_some, Option.some.injEq]
        omega

/-- Array suffixes with the given texts between the brackets. -/
def arraySuffixes (sizes : List Text) : Text :=
  sizes.flatMap fun size => "[" ++ size ++ "]"

/-- The line break that may end a text. -/
def IsEnding (ending : Text) : Prop :=
  ending = [] ∨ ending = "\n"

/-- At most a line break is dropped. -/
theorem dropLineBreak_append
    (t : Text) :
    ∃ ending, IsEnding ending ∧ t = dropLineBreak t ++ ending := by
  rw [dropLineBreak, dropEnd?]
  cases dropped : dropStart? t.reverse (Text.ofString "\n").reverse with
  | none =>
      exact ⟨[], Or.inl rfl, by simp⟩
  | some before =>
      refine ⟨"\n", Or.inr rfl, ?_⟩
      have reversed := congrArg List.reverse (eq_append_of_dropStart? dropped)
      rw [List.reverse_reverse, List.reverse_append, List.reverse_reverse] at reversed
      exact reversed

/-- What stands before an array suffix is a single line. -/
theorem append_of_dropArraySuffix?
    {t element : Text}
    (dropped : dropArraySuffix? t = some element) :
    (∀ c ∈ element, c ≠ '\n') ∧
      ∃ digits ending,
        (∀ c ∈ digits, c.isDecimalDigit = true) ∧ IsEnding ending ∧
          t = element ++ ("[" ++ digits ++ "]") ++ ending := by
  obtain ⟨ending, isEnding, whole⟩ := dropLineBreak_append t
  rw [dropArraySuffix?] at dropped
  cases reversed : (dropLineBreak t).reverse with
  | nil =>
      rw [reversed] at dropped
      cases dropped
  | cons last rest =>
      simp only [reversed] at dropped
      split at dropped
      case isFalse =>
        cases dropped
      case isTrue isClosing =>
        subst isClosing
        have split := List.takeWhile_append_dropWhile (p := CodePoint.isDecimalDigit) (l := rest)
        cases past : rest.dropWhile CodePoint.isDecimalDigit with
        | nil =>
            simp only [past] at dropped
            cases dropped
        | cons opening before =>
            simp only [past] at dropped split
            split at dropped
            case isFalse =>
              cases dropped
            case isTrue found =>
              obtain ⟨rfl, oneLine⟩ := found
              cases dropped
              refine ⟨by simpa using oneLine,
                (rest.takeWhile CodePoint.isDecimalDigit).reverse, ending, ?_, isEnding, ?_⟩
              · intro c member
                exact List.mem_takeWhile_imp (List.mem_reverse.mp member)
              · have forward := congrArg List.reverse reversed
                rw [List.reverse_reverse, ← split] at forward
                rw [whole, forward]
                have opens : Text.ofString "[" = [CodePoint.ofChar '['] := rfl
                have closes : Text.ofString "]" = [CodePoint.ofChar ']'] := rfl
                simp [opens, closes]

/-- A text is a base, of which an ending does not count, with as many array suffixes
and at most a line break behind them. -/
def HasSuffixes (t base : Text) (count : Nat) : Prop :=
  ∃ sizes ending,
    sizes.length = count ∧ (∀ size ∈ sizes, ∀ c ∈ size, c.isDecimalDigit = true) ∧
      IsEnding ending ∧ t = dropLineBreak base ++ (arraySuffixes sizes ++ ending)

theorem hasSuffixes_zero
    (t : Text) :
    HasSuffixes t t 0 := by
  obtain ⟨ending, isEnding, whole⟩ := dropLineBreak_append t
  exact ⟨[], ending, rfl, by simp, isEnding, whole⟩

theorem HasSuffixes.succ
    {t element base : Text}
    {count : Nat}
    (inside : HasSuffixes element base count)
    (suffix : dropArraySuffix? t = some element) :
    HasSuffixes t base (count + 1) := by
  obtain ⟨oneLine, digits, ending, areDigits, isEnding, whole⟩ := append_of_dropArraySuffix? suffix
  obtain ⟨sizes, inner, asMany, areSizes, isInner, wholeElement⟩ := inside
  -- The element is a single line, so that nothing stands behind its suffixes.
  have noInner : inner = [] := by
    refine isInner.resolve_right ?_
    rintro rfl
    refine oneLine '\n' ?_ rfl
    rw [wholeElement]
    exact List.mem_append_right _ (List.mem_append_right _ (by decide))
  subst noInner
  refine ⟨sizes ++ [digits], ending, by simp [asMany], ?_, isEnding, ?_⟩
  · intro size member
    rcases List.mem_append.mp member with isInside | isLast
    · exact areSizes size isInside
    · rw [List.mem_singleton.mp isLast]
      exact areDigits
  · rw [whole, wholeElement]
    simp [arraySuffixes]

theorem hasSuffixes_dropArraySuffixes
    (fuel : Nat)
    (t : Text) :
    HasSuffixes t (dropArraySuffixes fuel t).1 (dropArraySuffixes fuel t).2 := by
  induction fuel generalizing t with
  | zero =>
      exact hasSuffixes_zero t
  | succ fuel inductionHypothesis =>
      rw [dropArraySuffixes]
      cases suffix : dropArraySuffix? t with
      | none =>
          exact hasSuffixes_zero t
      | some element =>
          exact (inductionHypothesis element).succ suffix

end Text

namespace TypeForm

/-- A text that begins with a decimal digit, where a size was not read to its end. -/
def BeginsWithDigit (t : Text) : Prop :=
  ∃ digit rest, t = digit :: rest ∧ digit.isDecimalDigit = true

/-- Neither a mark of punctuation nor a letter begins a text that begins with a digit. -/
theorem BeginsWithDigit.dropStart?_eq_none
    {t : Text}
    (begins : BeginsWithDigit t)
    {c : CodePoint}
    (isOther : c.isDecimalDigit = false)
    (start : Text) :
    Text.dropStart? t (c :: start) = none := by
  obtain ⟨digit, rest, rfl, isDigit⟩ := begins
  refine Text.dropStart?_cons_ne ?_ rest start
  rintro rfl
  exact absurd isDigit (by simp [isOther])

theorem BeginsWithDigit.not_ends
    {t : Text}
    (begins : BeginsWithDigit t) :
    ¬ Ends t := by
  intro ends
  obtain ⟨digit, rest, rfl, isDigit⟩ := begins
  rcases ends digit rfl with rfl | rfl <;> exact absurd isDigit (by decide)

/-- Decimal digits are no size, or those of a number, or are read only in part. -/
theorem readSize_append
    {digits rest : Text}
    (areDigits : ∀ c ∈ digits, c.isDecimalDigit = true)
    (noDigit : rest.takeWhile CodePoint.isAsciiDigit = []) :
    readSize (digits ++ rest) = none ∨
      (∃ n, n ≠ 0 ∧ digits = Text.ofNat n ∧ readSize (digits ++ rest) = some (digits, rest)) ∨
        ∃ size left, readSize (digits ++ rest) = some (size, left) ∧ BeginsWithDigit left := by
  have split := List.takeWhile_append_dropWhile (p := CodePoint.isAsciiDigit) (l := digits)
  cases others : digits.dropWhile CodePoint.isAsciiDigit with
  | nil =>
      rw [others, List.append_nil] at split
      have areAscii : ∀ c ∈ digits, c.isAsciiDigit = true := by
        rw [← split]
        exact fun c => List.mem_takeWhile_imp
      by_cases isSize : digits ≠ [] ∧ digits.head? ≠ some '0'
      · have written := Text.ofNat_numberOf areAscii isSize.1 isSize.2
        refine Or.inr (Or.inl ⟨_, written.2, written.1.symm, ?_⟩)
        have isRead := readSize_ofNat written.2 noDigit
        rwa [written.1] at isRead
      · refine Or.inl ?_
        rw [readSize, List.takeWhile_append_of_pos areAscii, noDigit, List.append_nil]
        cases digits with
        | nil =>
            rfl
        | cons first more =>
            have isZero : first = '0' := by
              simpa using isSize
            simp only [isZero, ↓reduceIte]
  | cons other more =>
      have notAscii : other.isAsciiDigit = false := by
        have stopped := List.head?_dropWhile_not CodePoint.isAsciiDigit digits
        simpa [others] using stopped
      have isDigit : other.isDecimalDigit = true :=
        areDigits other (by rw [← split, others]; simp)
      have stops : ((other :: more) ++ rest).takeWhile CodePoint.isAsciiDigit = [] := by
        simp [notAscii]
      have stays : ((other :: more) ++ rest).dropWhile CodePoint.isAsciiDigit =
          other :: (more ++ rest) := by
        simp [notAscii]
      have areAscii :
          ∀ c ∈ digits.takeWhile CodePoint.isAsciiDigit, c.isAsciiDigit = true :=
        fun c => List.mem_takeWhile_imp
      rw [readSize, ← split, others, List.append_assoc, List.takeWhile_append_of_pos areAscii,
        List.dropWhile_append_of_pos areAscii, stops, stays, List.append_nil]
      cases digits.takeWhile CodePoint.isAsciiDigit with
      | nil =>
          exact Or.inl rfl
      | cons first ascii =>
          dsimp only
          split
          · exact Or.inl rfl
          · exact Or.inr (Or.inr ⟨_, _, rfl, other, more ++ rest, rfl, isDigit⟩)

/-- Decimal digits in a suffix are those of a number, or the suffix is not read. -/
theorem readSuffixes_of_digits
    {size : Text}
    (areDigits : ∀ c ∈ size, c.isDecimalDigit = true)
    (rest : Text)
    (fuel : Nat)
    (element : TypeForm) :
    (∃ number, number ≠ some 0 ∧ size = ScalarType.digits number) ∨
      readSuffixes fuel element ("[" ++ (size ++ ("]" ++ rest))) =
        (element, "[" ++ (size ++ ("]" ++ rest))) := by
  cases fuel with
  | zero =>
      exact Or.inr rfl
  | succ fuel =>
      cases size with
      | nil =>
          exact Or.inl ⟨none, nofun, rfl⟩
      | cons digit digits =>
          have notClosed : Text.dropStart? (digit :: digits ++ ("]" ++ rest)) "]" = none :=
            BeginsWithDigit.dropStart?_eq_none
              ⟨digit, digits ++ ("]" ++ rest), rfl, areDigits digit (by simp)⟩ (by decide) _
          have noDigit : ("]" ++ rest).takeWhile CodePoint.isAsciiDigit = [] :=
            List.takeWhile_cons_of_neg (by decide)
          rw [readSuffixes, Text.dropStart?_append]
          rcases readSize_append areDigits noDigit with
            noSize | ⟨n, notZero, written, -⟩ | ⟨other, more, isSize, begins⟩
          · exact Or.inr (by simp only [notClosed, noSize])
          · exact Or.inl ⟨some n, by simpa using notZero, written⟩
          · have stillOpen : Text.dropStart? more "]" = none :=
              begins.dropStart?_eq_none (by decide) _
            exact Or.inr (by simp only [notClosed, isSize, stillOpen])

/-- If array suffixes are read up to the end of a type, their sizes are numbers and
nothing is left behind them. -/
theorem readSuffixes_ends
    {sizes : List Text}
    (areDigits : ∀ size ∈ sizes, ∀ c ∈ size, c.isDecimalDigit = true)
    {ending rest : Text}
    (isEnding : Text.IsEnding ending)
    (ends : Ends rest)
    {fuel : Nat}
    {element form : TypeForm}
    {left : Text}
    (read : readSuffixes fuel element (Text.arraySuffixes sizes ++ (ending ++ rest)) = (form, left))
    (leftEnds : Ends left) :
    ending = [] ∧ left = rest ∧
      ∃ numbers, sizes = numbers.map ScalarType.digits ∧ (∀ size ∈ numbers, size ≠ some 0) ∧
        form = element.within numbers := by
  induction sizes generalizing fuel element with
  | nil =>
      have notOpened : Text.dropStart? (ending ++ rest) "[" = none := by
        rcases isEnding with rfl | rfl
        · exact ends.dropStart?_bracket
        · exact Text.dropStart?_cons_ne (by decide) _ _
      rw [Text.arraySuffixes, List.flatMap_nil, List.nil_append,
        readSuffixes_of_notOpened notOpened] at read
      cases read
      rcases isEnding with rfl | rfl
      · exact ⟨rfl, rfl, [], rfl, by simp, rfl⟩
      · rcases leftEnds '\n' rfl with same | same <;> exact absurd same (by decide)
  | cons size sizes inductionHypothesis =>
      obtain ⟨ofFirst, ofOthers⟩ := List.forall_mem_cons.mp areDigits
      have opened : Text.arraySuffixes (size :: sizes) ++ (ending ++ rest) =
          "[" ++ (size ++ ("]" ++ (Text.arraySuffixes sizes ++ (ending ++ rest)))) := by
        simp [Text.arraySuffixes]
      rw [opened] at read
      -- Where a suffix is not read the type does not end.
      have notLeft :
          (element, "[" ++ (size ++ ("]" ++ (Text.arraySuffixes sizes ++ (ending ++ rest))))) =
            (form, left) → False := by
        rintro ⟨⟩
        rcases leftEnds '[' rfl with same | same <;> exact absurd same (by decide)
      cases fuel with
      | zero =>
          exact (notLeft read).elim
      | succ fuel =>
          rcases readSuffixes_of_digits ofFirst (Text.arraySuffixes sizes ++ (ending ++ rest))
              (fuel + 1) element with ⟨number, notZero, rfl⟩ | notRead
          · rw [readSuffixes_suffix notZero] at read
            obtain ⟨noEnding, nothingLeft, numbers, rfl, othersNotZero, rfl⟩ :=
              inductionHypothesis ofOthers read
            exact ⟨noEnding, nothingLeft, number :: numbers, rfl,
              List.forall_mem_cons.mpr ⟨notZero, othersNotZero⟩, rfl⟩
          · exact (notLeft (notRead.symm.trans read)).elim

/-- A text that begins with neither a letter nor a digit. -/
def EndsWord (t : Text) : Prop :=
  ∀ c, t.head? = some c → c.isAsciiLetter = false ∧ c.isAsciiDigit = false

theorem EndsWord.takeWhile_eq_nil
    {t : Text}
    (endsWord : EndsWord t) :
    t.takeWhile CodePoint.isAsciiLetter = [] ∧ t.takeWhile CodePoint.isAsciiDigit = [] := by
  cases t with
  | nil =>
      exact ⟨rfl, rfl⟩
  | cons c t =>
      obtain ⟨noLetter, noDigit⟩ := endsWord c rfl
      simp [noLetter, noDigit]

theorem endsWord_arraySuffixes
    (sizes : List Text)
    {ending rest : Text}
    (isEnding : Text.IsEnding ending)
    (ends : Ends rest) :
    EndsWord (Text.arraySuffixes sizes ++ (ending ++ rest)) := by
  intro c first
  cases sizes with
  | nil =>
      rcases isEnding with rfl | rfl
      · rcases ends c first with rfl | rfl <;> decide
      · cases first
        decide
  | cons size sizes =>
      cases first
      decide

/-- A word and its size are read to their end, or what is left begins with a digit. -/
theorem readWord_digits
    {first : CodePoint}
    {letters digits tail : Text}
    (areLetters : (first :: letters).all CodePoint.isAsciiLetter = true)
    (areDigits : ∀ c ∈ digits, c.isDecimalDigit = true)
    (endsWord : EndsWord tail)
    {form : TypeForm}
    {left : Text}
    (read : readWord (first :: letters ++ (digits ++ tail)) = .ok (form, left)) :
    (∃ width, digits = ScalarType.digits width ∧ width ≠ some 0 ∧
        form = .word (first :: letters) (ScalarType.sizes width) ∧ left = tail) ∨
      BeginsWithDigit left := by
  obtain ⟨noLetter, noDigit⟩ := endsWord.takeWhile_eq_nil
  have wordEnds : (digits ++ tail).takeWhile CodePoint.isAsciiLetter = [] := by
    cases digits with
    | nil =>
        exact noLetter
    | cons digit others =>
        simp [CodePoint.isAsciiLetter_eq_false (areDigits digit (by simp))]
  have pastLetters : (digits ++ tail).dropWhile CodePoint.isAsciiLetter = digits ++ tail := by
    have whole := List.takeWhile_append_dropWhile (p := CodePoint.isAsciiLetter)
      (l := digits ++ tail)
    rwa [wordEnds, List.nil_append] at whole
  have noMark : ∀ start, Text.dropStart? tail ('x' :: start) = none := by
    intro start
    cases tail with
    | nil =>
        rfl
    | cons c tail =>
        refine Text.dropStart?_cons_ne ?_ tail start
        rintro rfl
        exact absurd (endsWord _ rfl).1 (by decide)
  rw [readWord, List.takeWhile_append_of_pos (List.all_eq_true.mp areLetters),
    List.dropWhile_append_of_pos (List.all_eq_true.mp areLetters), wordEnds, List.append_nil,
    pastLetters] at read
  dsimp only at read
  rw [readSizes] at read
  rcases readSize_append areDigits noDigit with
    noSize | ⟨n, notZero, written, isSize⟩ | ⟨size, more, isSize, begins⟩
  · simp only [noSize] at read
    cases read
    cases digits with
    | nil =>
        exact Or.inl ⟨none, rfl, by simp, rfl, rfl⟩
    | cons digit others =>
        exact Or.inr ⟨digit, others ++ tail, rfl, areDigits digit (by simp)⟩
  · have noPlaces : (Text.dropStart? tail "x").bind readSize = none := by
      rw [show Text.dropStart? tail "x" = none from noMark []]
      rfl
    simp only [isSize, noPlaces] at read
    cases read
    exact Or.inl ⟨some n, written, by simpa using notZero, by rw [written]; rfl, rfl⟩
  · have noPlaces : (Text.dropStart? more "x").bind readSize = none := by
      rw [show Text.dropStart? more "x" = none from begins.dropStart?_eq_none (by decide) []]
      rfl
    simp only [isSize, noPlaces] at read
    cases read
    exact Or.inr begins

/-- If a word with array suffixes is read up to the end of a type, its size and those of
the arrays are numbers and nothing is left behind them. -/
theorem readForm_word
    {first : CodePoint}
    {letters digits : Text}
    (areLetters : (first :: letters).all CodePoint.isAsciiLetter = true)
    (areDigits : ∀ c ∈ digits, c.isDecimalDigit = true)
    {sizes : List Text}
    (areSizes : ∀ size ∈ sizes, ∀ c ∈ size, c.isDecimalDigit = true)
    {ending rest : Text}
    (isEnding : Text.IsEnding ending)
    (ends : Ends rest)
    {fuel room : Nat}
    {form : TypeForm}
    {left : Text}
    (read : readForm fuel room
      (first :: letters ++ (digits ++ (Text.arraySuffixes sizes ++ (ending ++ rest)))) =
        .ok (form, left))
    (leftEnds : Ends left) :
    ending = [] ∧ left = rest ∧
      ∃ width numbers, digits = ScalarType.digits width ∧ width ≠ some 0 ∧
        sizes = numbers.map ScalarType.digits ∧ (∀ size ∈ numbers, size ≠ some 0) ∧
          form = (TypeForm.word (first :: letters) (ScalarType.sizes width)).within numbers := by
  have isLetter : first.isAsciiLetter = true :=
    List.all_eq_true.mp areLetters first (by simp)
  have noTuple : ∀ t, Text.dropStart? (first :: t) "(" = none := by
    refine fun t => Text.dropStart?_cons_ne ?_ t []
    rintro rfl
    exact absurd isLetter (by decide)
  cases fuel with
  | zero =>
      rw [readForm] at read
      cases read
  | succ fuel =>
      rw [readForm, List.cons_append, noTuple] at read
      simp only [map_eq_ok_iff, Prod.exists] at read
      obtain ⟨word, behind, ofWord, read⟩ := read
      rcases readWord_digits areLetters areDigits
          (endsWord_arraySuffixes sizes isEnding ends) ofWord with
        ⟨width, written, notZero, rfl, rfl⟩ | begins
      · obtain ⟨noEnding, nothingLeft, numbers, areNumbers, sizesNotZero, rfl⟩ :=
          readSuffixes_ends areSizes isEnding ends read leftEnds
        exact ⟨noEnding, nothingLeft, width, numbers, written, notZero, areNumbers,
          sizesNotZero, rfl⟩
      · -- What begins with a digit has no suffixes, and no type ends there.
        have notOpened : Text.dropStart? behind "[" = none :=
          begins.dropStart?_eq_none (by decide) []
        rw [readSuffixes_of_notOpened notOpened] at read
        cases read
        exact absurd leftEnds begins.not_ends

/-- Behind the first member of a tuple the tuple is closed, or the other members follow. -/
theorem readMembers_cases
    {fuel room : Nat}
    {t left : Text}
    {members : List TypeForm}
    (read : readMembers (fuel + 1) room t = .ok (members, left)) :
    ∃ member others rest,
      members = member :: others ∧ readForm fuel room t = .ok (member, rest) ∧
        ((rest = ")" ++ left ∧ others = []) ∨
          ∃ behind, rest = "," ++ behind ∧
            readMembers fuel room behind = .ok (others, left)) := by
  rw [readMembers] at read
  cases ofFirst : readForm fuel room t with
  | error failure =>
      simp only [ofFirst] at read
      cases read
  | ok first =>
      obtain ⟨member, rest⟩ := first
      simp only [ofFirst] at read
      cases closed : Text.dropStart? rest ")" with
      | some behind =>
          simp only [closed] at read
          cases read
          exact ⟨member, [], rest, rfl, rfl, Or.inl ⟨Text.eq_append_of_dropStart? closed, rfl⟩⟩
      | none =>
          simp only [closed] at read
          cases separated : Text.dropStart? rest "," with
          | none =>
              simp only [separated] at read
              cases read
          | some behind =>
              simp only [separated, map_eq_ok_iff, Prod.exists] at read
              obtain ⟨others, leftOver, ofOthers, same⟩ := read
              cases same
              exact ⟨member, others, rest, rfl, rfl,
                Or.inr ⟨behind, Text.eq_append_of_dropStart? separated, ofOthers⟩⟩

theorem ends_closing
    (rest : Text) :
    Ends (")" ++ rest) :=
  fun _ first => Or.inr (Option.some.inj first).symm

theorem ends_comma
    (rest : Text) :
    Ends ("," ++ rest) :=
  fun _ first => Or.inl (Option.some.inj first).symm

end TypeForm

end ContractBindings
