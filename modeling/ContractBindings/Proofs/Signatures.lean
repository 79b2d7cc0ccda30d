import ContractBindings.Abi.Signature
import ContractBindings.Proofs.DescribedTypes

namespace ContractBindings

/-!
# Signatures tell names and types

A signature ends with the types in parentheses that match.  No end of a text
whose parentheses match opens more of them than it closes, so the name stops
where the last parenthesis is opened, whatever the name looks like.  The types
are then told apart by the reader of types.
-/

namespace Text

/-- The number of parentheses that a text opens. -/
def opened (t : Text) : Nat :=
  t.count (CodePoint.ofChar '(')

/-- The number of parentheses that a text closes. -/
def closed (t : Text) : Nat :=
  t.count (CodePoint.ofChar ')')

/-- A text whose parentheses match. -/
structure Balanced (t : Text) : Prop where
  ends : ∀ ending, ending <:+ t → opened ending ≤ closed ending
  whole : opened t = closed t

theorem opened_append
    (first second : Text) :
    opened (first ++ second) = opened first + opened second :=
  List.count_append

theorem closed_append
    (first second : Text) :
    closed (first ++ second) = closed first + closed second :=
  List.count_append

/-- A text without parentheses is balanced. -/
theorem balanced_of_noParentheses
    {t : Text}
    (noParentheses : ∀ c ∈ t, c ≠ '(' ∧ c ≠ ')') :
    Balanced t := by
  have noneOpened : ∀ ending, ending <:+ t → opened ending = 0 := fun ending isEnd =>
    List.count_eq_zero.mpr fun member => (noParentheses _ (isEnd.subset member)).1 rfl
  have noneClosed : closed t = 0 :=
    List.count_eq_zero.mpr fun member => (noParentheses _ member).2 rfl
  refine ⟨fun ending isEnd => ?_, ?_⟩
  · rw [noneOpened ending isEnd]
    exact Nat.zero_le _
  · rw [noneOpened t (List.suffix_refl t), noneClosed]

theorem Balanced.append
    {first second : Text}
    (firstBalanced : Balanced first)
    (secondBalanced : Balanced second) :
    Balanced (first ++ second) := by
  refine ⟨fun ending isEnd => ?_, ?_⟩
  · obtain ⟨before, whole⟩ := isEnd
    -- Either the end begins in the first text, or it is an end of the second one.
    rcases List.append_eq_append_iff.mp whole with
      ⟨rest, isFirst, isEnd⟩ | ⟨rest, -, isSecond⟩
    · have fewer := firstBalanced.ends rest ⟨before, isFirst.symm⟩
      rw [isEnd, opened_append, closed_append, secondBalanced.whole]
      omega
    · exact secondBalanced.ends ending ⟨rest, isSecond.symm⟩
  · rw [opened_append, closed_append, firstBalanced.whole, secondBalanced.whole]

/-- Balanced texts that are joined are balanced. -/
theorem balanced_join
    {parts : List Text}
    (each : ∀ part ∈ parts, Balanced part) :
    Balanced (join "," parts) := by
  induction parts with
  | nil =>
      exact balanced_of_noParentheses fun c member => nomatch member
  | cons first others inductionHypothesis =>
      have othersBalanced := inductionHypothesis fun part member =>
        each part (List.mem_cons_of_mem _ member)
      cases others with
      | nil =>
          rw [join_singleton]
          exact each first (by simp)
      | cons second others =>
          have comma : Balanced "," :=
            balanced_of_noParentheses (List.forall_mem_singleton.mpr ⟨by decide, by decide⟩)
          rw [join_cons_cons]
          exact (each first (by simp)).append (comma.append othersBalanced)

/-- Every end of a balanced text closes the parenthesis behind it. -/
theorem Balanced.opened_lt_closed
    {t : Text}
    (balanced : Balanced t)
    {ending : Text}
    (isEnd : ending <:+ t ++ ")")
    (notEmpty : ending ≠ []) :
    opened ending < closed ending := by
  have closing : opened ")" = 0 ∧ closed ")" = 1 := by
    decide
  rcases List.suffix_concat_iff.mp isEnd with isEmpty | ⟨rest, isRest, restEnds⟩
  · exact absurd isEmpty notEmpty
  · have fewer := balanced.ends rest restEnds
    have added : ending = rest ++ ofString ")" := isRest
    rw [added, opened_append, closed_append, closing.1, closing.2]
    omega

theorem Balanced.parenthesized
    {t : Text}
    (balanced : Balanced t) :
    Balanced ("(" ++ t ++ ")") := by
  have opening : opened "(" = 1 ∧ closed "(" = 0 := by
    decide
  have closing : opened ")" = 0 ∧ closed ")" = 1 := by
    decide
  have whole : opened ("(" ++ t ++ ")") = closed ("(" ++ t ++ ")") := by
    rw [opened_append, opened_append, closed_append, closed_append, opening.1, opening.2,
      closing.1, closing.2, balanced.whole]
    omega
  refine ⟨fun ending isEnd => ?_, whole⟩
  rcases List.suffix_cons_iff.mp isEnd with isWhole | isEnd
  · have same : ending = "(" ++ t ++ ")" := isWhole
    exact same ▸ Nat.le_of_eq whole
  · by_cases isEmpty : ending = []
    · rw [isEmpty]
      exact Nat.le_refl 0
    · exact Nat.le_of_lt (balanced.opened_lt_closed isEnd isEmpty)

/-- No balanced text in parentheses ends with a shorter one. -/
theorem Balanced.eq_nil_of_append
    {t u before : Text}
    (balanced : Balanced t)
    (otherBalanced : Balanced u)
    (same : "(" ++ t ++ ")" = before ++ ("(" ++ u ++ ")")) :
    before = [] := by
  cases before with
  | nil =>
      rfl
  | cons c before =>
      -- The shorter text would be an end that opens as many parentheses as it closes.
      have isEnd : ("(" ++ u ++ ")" : Text) <:+ t ++ ")" :=
        ⟨before, (List.cons.inj same).2.symm⟩
      have fewer := balanced.opened_lt_closed isEnd (List.cons_ne_nil _ _)
      rw [otherBalanced.parenthesized.whole] at fewer
      exact absurd fewer (Nat.lt_irrefl _)

/-- A name ends where the last parenthesis of the balanced text behind it is opened. -/
theorem eq_of_append_parenthesized
    {name other t u : Text}
    (balanced : Balanced t)
    (otherBalanced : Balanced u)
    (same : name ++ ("(" ++ t ++ ")") = other ++ ("(" ++ u ++ ")")) :
    name = other ∧ t = u := by
  have sameName : name = other := by
    -- One name extends the other by what stands in front of a parenthesized text.
    rcases List.append_eq_append_iff.mp same with ⟨rest, longer, ending⟩ | ⟨rest, longer, ending⟩
    · rw [longer, balanced.eq_nil_of_append otherBalanced ending, List.append_nil]
    · rw [longer, otherBalanced.eq_nil_of_append balanced ending, List.append_nil]
  rw [sameName, List.append_cancel_left_eq, List.append_assoc, List.append_assoc,
    List.append_cancel_left_eq, List.append_cancel_right_eq] at same
  exact ⟨sameName, same⟩

end Text

namespace DeclaredType

/-- The parentheses in the signature of a type match. -/
theorem balanced_signature
    (type : DeclaredType) :
    Text.Balanced type.signature := by
  have noParentheses : ∀ c : CodePoint, c.isAsciiWord = true → c ≠ '(' ∧ c ≠ ')' := by
    rintro c isWord
    refine ⟨?_, ?_⟩ <;> rintro rfl <;> revert isWord <;> decide
  induction type using inductionOnComponents with
  | scalar type =>
      exact Text.balanced_of_noParentheses fun c member =>
        noParentheses c (ScalarType.isAsciiWord_of_mem_text member)
  | array element size inductionHypothesis =>
      refine inductionHypothesis.append (Text.balanced_of_noParentheses fun c member => ?_)
      simp only [suffix, List.mem_append] at member
      rcases member with (opening | digit) | closing
      · rw [List.mem_singleton.mp opening]
        decide
      · exact noParentheses c (ScalarType.isAsciiWord_of_mem_digits size digit)
      · rw [List.mem_singleton.mp closing]
        decide
  | tuple components inductionHypothesis =>
      rw [signature]
      exact (Text.balanced_join (forall_mem_signatures inductionHypothesis)).parenthesized

theorem balanced_signatures
    (declarations : Declarations) :
    Text.Balanced (Text.join "," (signatures declarations)) :=
  Text.balanced_join (forall_mem_signatures fun declaration _ =>
    declaration.2.balanced_signature)

/-- No type is written without a letter or a sign. -/
theorem signature_ne_nil
    (type : DeclaredType) :
    type.signature ≠ [] := by
  cases type with
  | scalar type =>
      exact List.length_pos_iff.mp (TypeForm.length_text_pos type)
  | array element size =>
      rw [signature]
      exact List.append_ne_nil_of_right_ne_nil _ (List.cons_ne_nil _ _)
  | tuple components =>
      exact List.cons_ne_nil _ _

/-- Where types are joined there is a text. -/
theorem join_signatures_ne_nil
    (declaration : Text × DeclaredType)
    (rest : Declarations) :
    Text.join "," (signatures (declaration :: rest)) ≠ [] := by
  have first := declaration.2.signature_ne_nil
  cases rest with
  | nil =>
      rw [signatures, signatures, Text.join_singleton]
      exact first
  | cons second others =>
      rw [signatures, signatures, Text.join_cons_cons]
      exact List.append_ne_nil_of_left_ne_nil first _

/-- Joined types are told apart by the reader of types. -/
theorem forms_eq_of_join
    {declarations others : Declarations}
    (valid : ∀ declaration ∈ declarations, declaration.2.isValid = true)
    (othersValid : ∀ other ∈ others, other.2.isValid = true)
    (same : Text.join "," (signatures declarations) = Text.join "," (signatures others)) :
    forms declarations = forms others := by
  match declarations, others with
  | [], [] =>
      rfl
  | [], other :: others =>
      exact absurd same.symm (join_signatures_ne_nil other others)
  | declaration :: declarations, [] =>
      exact absurd same (join_signatures_ne_nil declaration declarations)
  | declaration :: declarations, other :: others =>
      have read := TypeForm.readMembers_signatures (List.cons_ne_nil declaration declarations)
        (fun type member => reads_of_isValid type.2 (valid type member)) (Nat.le_refl _)
        (Nat.le_max_left _ (mostParentheses (other :: others))) []
      have readOthers := TypeForm.readMembers_signatures (List.cons_ne_nil other others)
        (fun type member => reads_of_isValid type.2 (othersValid type member)) (Nat.le_refl _)
        (Nat.le_max_right (mostParentheses (declaration :: declarations)) _) []
      rw [same, readOthers] at read
      exact (congrArg Prod.fst (Except.ok.inj read)).symm

/-- The signature of valid types tells the name and the forms of the types. -/
theorem eq_of_signatureOf
    {name other : Text}
    {declarations others : Declarations}
    (valid : ∀ declaration ∈ declarations, declaration.2.isValid = true)
    (othersValid : ∀ other ∈ others, other.2.isValid = true)
    (same : signatureOf name (signatures declarations) = signatureOf other (signatures others)) :
    name = other ∧ forms declarations = forms others := by
  simp only [signatureOf, List.append_assoc] at same
  rw [← List.append_assoc (Text.ofString "("), ← List.append_assoc (Text.ofString "(")] at same
  obtain ⟨sameName, sameTypes⟩ := Text.eq_of_append_parenthesized
    (balanced_signatures declarations) (balanced_signatures others) same
  exact ⟨sameName, forms_eq_of_join valid othersValid sameTypes⟩

end DeclaredType

end ContractBindings
