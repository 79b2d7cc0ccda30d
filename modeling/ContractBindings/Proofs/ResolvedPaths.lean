import Mathlib.Data.List.TakeWhile
import ContractBindings.Config.PathText
import ContractBindings.Proofs.Steps
import ContractBindings.Proofs.Texts

namespace ContractBindings

/-!
# Paths that are resolved already

A path that is resolved consists of names that files can have, and if the directory that
relative paths are taken from does so too, it is what its text resolves to again.

Main statements: `AbsolutePath.isProper_of_resolve` and `AbsolutePath.resolve_toText`.
-/

namespace Text

/-- No part that a text is split into has a separator in it. -/
theorem separator_notMem_of_mem_split
    {t part : Text}
    {separator : CodePoint}
    (isPart : part ∈ t.split separator) :
    separator ∉ part := by
  induction t generalizing part with
  | nil =>
      rw [List.mem_singleton.mp isPart]
      exact List.not_mem_nil
  | cons c t inductionHypothesis =>
      rw [Text.split] at isPart
      split at isPart
      case isTrue =>
        rcases List.mem_cons.mp isPart with rfl | isOther
        · exact List.not_mem_nil
        · exact inductionHypothesis isOther
      case isFalse differs =>
        obtain ⟨first, others, isSplit⟩ := List.exists_cons_of_ne_nil (split_ne_nil t separator)
        rw [isSplit] at isPart inductionHypothesis
        rcases List.mem_cons.mp isPart with rfl | isOther
        · rw [List.mem_cons, not_or]
          exact ⟨Ne.symm differs, inductionHypothesis List.mem_cons_self⟩
        · exact inductionHypothesis (List.mem_cons_of_mem _ isOther)

/-- Parts without a separator are split again as they were joined. -/
theorem split_join
    {separator : CodePoint}
    {parts : List Text}
    (notEmpty : parts ≠ [])
    (absent : ∀ part ∈ parts, separator ∉ part) :
    (join [separator] parts).split separator = parts := by
  induction parts with
  | nil =>
      exact absurd rfl notEmpty
  | cons first others inductionHypothesis =>
      rw [List.forall_mem_cons] at absent
      cases others with
      | nil =>
          rw [join_singleton, split_eq_singleton absent.1]
      | cons second others =>
          rw [join_cons_cons, List.singleton_append, split_append_cons,
            split_eq_singleton absent.1, inductionHypothesis (List.cons_ne_nil _ _) absent.2]
          rfl

end Text

namespace PathText

/-- A code point that a path can have in it. -/
def isUsable (c : CodePoint) : Bool :=
  ! isStray c && c.val ≠ 0

/-- Nothing is wrong with a text of usable code points, and with no other. -/
theorem check_eq_ok_iff
    {t : Text} :
    check t = .ok () ↔ t.all isUsable = true := by
  rw [check, List.all_eq_true]
  split
  case h_1 first rest dropped =>
    refine iff_of_false nofun fun usable => ?_
    have isMember : first ∈ t :=
      (List.dropWhile_sublist (! isStray ·)).subset (dropped ▸ List.mem_cons_self)
    have isNotStray := usable first isMember
    have staysStray := List.head?_dropWhile_not (! isStray ·) t
    simp_all [isUsable]
  case h_2 dropped =>
    rw [List.dropWhile_eq_nil_iff] at dropped
    split
    case isTrue hasZero =>
      obtain ⟨c, isMember, isZero⟩ := List.any_eq_true.mp hasZero
      refine iff_of_false nofun fun usable => ?_
      have notZero := usable c isMember
      simp_all [isUsable]
    case isFalse noZero =>
      refine iff_of_true rfl fun c isMember => ?_
      have notZero : ¬ c.val = 0 := fun isZero =>
        noZero (List.any_eq_true.mpr ⟨c, isMember, by simpa using isZero⟩)
      rw [isUsable, Bool.and_eq_true]
      exact ⟨dropped c isMember, by simpa using notZero⟩

end PathText

namespace AbsolutePath

/-- A part of a path that is resolved. -/
def IsName (part : Text) : Prop :=
  part ≠ [] ∧ part ≠ "." ∧ part ≠ ".." ∧ ('/' : CodePoint) ∉ part ∧
    part.all PathText.isUsable = true

instance (part : Text) : Decidable (IsName part) :=
  inferInstanceAs (Decidable (_ ∧ _))

/-- A path that consists of names. -/
def IsProper (path : AbsolutePath) : Prop :=
  ∀ part ∈ path.parts, IsName part

instance (path : AbsolutePath) : Decidable path.IsProper :=
  inferInstanceAs (Decidable (∀ part ∈ path.parts, IsName part))

variable {path directory : AbsolutePath}

theorem IsProper.parent
    (proper : path.IsProper) :
    path.parent.IsProper :=
  fun part isPart => proper part (List.dropLast_subset _ isPart)

theorem IsProper.child
    (proper : path.IsProper)
    {part : Text}
    (isName : IsName part) :
    (path.child part).IsProper := by
  intro other isOther
  rcases List.mem_append.mp isOther with isOld | isLast
  · exact proper other isOld
  · rwa [List.mem_singleton.mp isLast]

/-- Names are followed as they are. -/
theorem follow_names
    (before : List Text)
    {names : List Text}
    (areNames : ∀ name ∈ names, IsName name) :
    follow before names = before ++ names := by
  induction names generalizing before with
  | nil =>
      exact (List.append_nil before).symm
  | cons name names inductionHypothesis =>
      obtain ⟨⟨notEmpty, notDot, notDots, -⟩, areOthers⟩ := List.forall_mem_cons.mp areNames
      have ofOthers := inductionHypothesis (before ++ [name]) areOthers
      rw [follow] at ofOthers ⊢
      rw [List.foldl_cons, if_neg (by simp [notEmpty, notDot]), if_neg notDots, ofOthers,
        List.append_assoc, List.singleton_append]

/-- Nothing is wrong with names on the way along them. -/
theorem checkParts_names
    {before : List Text}
    (areNamesBefore : ∀ name ∈ before, IsName name)
    {names : List Text}
    (areNames : ∀ name ∈ names, IsName name) :
    PathText.checkParts "/" before names = .ok () := by
  induction names generalizing before with
  | nil =>
      rfl
  | cons name names inductionHypothesis =>
      obtain ⟨isName, areOthers⟩ := List.forall_mem_cons.mp areNames
      have ⟨notEmpty, notDot, notDots, _⟩ := isName
      have areNamesUpTo : ∀ other ∈ before ++ [name], IsName other := by
        intro other isOther
        rcases List.mem_append.mp isOther with isBefore | isLast
        · exact areNamesBefore other isBefore
        · rw [List.mem_singleton.mp isLast]
          exact isName
      have nothingWrong : PathText.check ("/" ++ Text.join "/" (before ++ [name])) = .ok () := by
        rw [PathText.check_eq_ok_iff, List.all_append, Bool.and_eq_true]
        exact ⟨by decide, Text.all_join (by decide) fun part isPart =>
          (areNamesUpTo part isPart).2.2.2.2⟩
      rw [PathText.checkParts, if_neg (by simp [notEmpty, notDot]), if_neg notDots]
      exact bind_eq_ok_iff.mpr ⟨(), nothingWrong, inductionHypothesis areNamesUpTo areOthers⟩

/-- A path that is resolved already is what its text resolves to. -/
theorem resolve_toText
    (proper : path.IsProper)
    (directory : AbsolutePath) :
    PathText.resolve directory path.toText = .ok path := by
  obtain ⟨parts⟩ := path
  cases parts with
  | nil =>
      rfl
  | cons first others =>
      have isAbsolute : Text.startsWith (toText ⟨first :: others⟩) "/" = true := by
        rw [Text.startsWith, toText, Text.dropStart?_append]
        rfl
      have areParts : Text.split (toText ⟨first :: others⟩) '/' = [] :: first :: others := by
        have areJoined : Text.split (Text.join "/" (first :: others)) '/' = first :: others :=
          Text.split_join (List.cons_ne_nil _ _) fun part isPart => (proper part isPart).2.2.2.1
        exact congrArg ([] :: ·) areJoined
      have isFollowed : follow [] ([] :: first :: others) = first :: others :=
        follow_names [] proper
      have nothingWrong : PathText.checkParts "/" [] ([] :: first :: others) = .ok () := by
        rw [PathText.checkParts, if_pos (.inl rfl)]
        exact checkParts_names (List.forall_mem_nil _) proper
      rw [PathText.resolve, resolve, isAbsolute, areParts, if_pos rfl, if_pos rfl, isFollowed]
      exact bind_eq_ok_iff.mpr ⟨(), nothingWrong, rfl⟩

/-- Parts that are followed and nothing is wrong with are names. -/
theorem isName_of_mem_follow
    {start : Text}
    {checked parts texts : List Text}
    (nothingWrong : PathText.checkParts start checked texts = .ok ())
    (noSlash : ∀ text ∈ texts, ('/' : CodePoint) ∉ text)
    (areNames : ∀ part ∈ parts, IsName part) :
    ∀ part ∈ follow parts texts, IsName part := by
  induction texts generalizing checked parts with
  | nil =>
      exact areNames
  | cons text texts inductionHypothesis =>
      rw [List.forall_mem_cons] at noSlash
      rw [PathText.checkParts] at nothingWrong
      rw [follow, List.foldl_cons, ← follow]
      by_cases isSkipped : text = [] ∨ text = "."
      · rw [if_pos isSkipped] at nothingWrong ⊢
        exact inductionHypothesis nothingWrong noSlash.2 areNames
      rw [if_neg isSkipped] at nothingWrong ⊢
      by_cases isUp : text = ".."
      · rw [if_pos isUp] at nothingWrong ⊢
        have areNamesAbove : ∀ part ∈ parts.dropLast, IsName part :=
          fun part isPart => areNames part (List.dropLast_subset _ isPart)
        split at nothingWrong <;> exact inductionHypothesis nothingWrong noSlash.2 areNamesAbove
      · rw [if_neg isUp] at nothingWrong ⊢
        obtain ⟨_, isChecked, ofOthers⟩ := bind_eq_ok_iff.mp nothingWrong
        have isUsable : text.all PathText.isUsable = true := by
          have all := PathText.check_eq_ok_iff.mp isChecked
          rw [List.all_append, Bool.and_eq_true] at all
          exact Text.all_of_mem_of_all_join all.2 (by simp)
        refine inductionHypothesis ofOthers noSlash.2 fun part isPart => ?_
        rcases List.mem_append.mp isPart with isOld | isLast
        · exact areNames part isOld
        · rw [List.mem_singleton.mp isLast]
          rw [not_or] at isSkipped
          exact ⟨isSkipped.1, isSkipped.2, isUp, noSlash.1, isUsable⟩

/-- What a text resolves to consists of names, if the directory does. -/
theorem isProper_of_resolve
    (proper : directory.IsProper)
    {t : Text}
    (resolved : PathText.resolve directory t = .ok path) :
    path.IsProper := by
  obtain ⟨_, nothingWrong, isPath⟩ := bind_eq_ok_iff.mp resolved
  cases isPath
  refine isName_of_mem_follow nothingWrong
    (fun text isPart => Text.separator_notMem_of_mem_split isPart) fun part isPart => ?_
  split at isPart
  · cases isPart
  · exact proper part isPart

end AbsolutePath

end ContractBindings
