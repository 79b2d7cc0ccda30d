import ContractBindings.Proofs.WrittenTypes

namespace ContractBindings

/-!
# What is read of a written type

A form has one text, and the reader takes exactly this text off the front of what it is given.
It never looks past what may end a type: with more behind such an end it reads the same form,
and so it does with more fuel or with room for more parentheses.  Therefore types that are
forms by themselves are found again as the members of a tuple that lists them.
-/

/-- The digits of a size. -/
structure IsSize (size : Text) : Prop where
  areDigits : ∀ c ∈ size, c.isAsciiDigit = true
  notEmpty : size ≠ []

namespace Sizes

/-- The text of sizes behind a word. -/
def text : Sizes → Text
  | .none => []
  | .one size => size
  | .two bits places => bits ++ ("x" ++ places)

end Sizes

namespace TypeForm

mutual

/-- The text of a form. -/
def text : TypeForm → Text
  | .word letters sizes => letters ++ sizes.text
  | .array element size => element.text ++ ("[" ++ size.getD [] ++ "]")
  | .tuple members => "(" ++ Text.join "," (texts members) ++ ")"

/-- The texts of several forms. -/
def texts : List TypeForm → List Text
  | [] => []
  | member :: members => member.text :: texts members

end

mutual

/-- The words of a form are letters, and its sizes are digits. -/
def IsWritten : TypeForm → Prop
  | .word letters sizes =>
      (∀ c ∈ letters, c.isAsciiLetter = true) ∧ letters ≠ [] ∧ ∀ size ∈ sizes.toList, IsSize size
  | .array element size => element.IsWritten ∧ ∀ digits ∈ size, IsSize digits
  | .tuple members => AreWritten members

/-- All of some forms are written with letters and digits. -/
def AreWritten : List TypeForm → Prop
  | [] => True
  | member :: members => member.IsWritten ∧ AreWritten members

end

/-- A property of all forms holds of words, of arrays of elements that have it and of tuples of
members that have it. -/
theorem inductionOnMembers
    {motive : TypeForm → Prop}
    (word : ∀ letters sizes, motive (.word letters sizes))
    (array : ∀ element size, motive element → motive (.array element size))
    (tuple : ∀ members, (∀ member ∈ members, motive member) → motive (.tuple members))
    (form : TypeForm) :
    motive form :=
  TypeForm.rec word array tuple
    (fun _ member => absurd member List.not_mem_nil)
    (fun _ _ first others _ member =>
      (List.mem_cons.mp member).elim (fun same => same ▸ first) (others _))
    form

/-!
## The text of a form
-/

theorem append_of_readSize
    {t size rest : Text}
    (read : readSize t = some (size, rest)) :
    t = size ++ rest ∧ IsSize size := by
  have split := List.takeWhile_append_dropWhile (p := CodePoint.isAsciiDigit) (l := t)
  have areDigits : ∀ c ∈ t.takeWhile CodePoint.isAsciiDigit, c.isAsciiDigit = true :=
    fun c => List.mem_takeWhile_imp
  rw [readSize] at read
  cases digits : t.takeWhile CodePoint.isAsciiDigit with
  | nil =>
      simp only [digits] at read
      cases read
  | cons first others =>
      simp only [digits] at read
      rw [digits] at split areDigits
      split at read
      · cases read
      · cases read
        exact ⟨split.symm, areDigits, List.cons_ne_nil first others⟩

theorem append_of_readSizes
    {t rest : Text}
    {sizes : Sizes}
    (read : readSizes t = (sizes, rest)) :
    t = sizes.text ++ rest ∧ ∀ size ∈ sizes.toList, IsSize size := by
  rw [readSizes] at read
  cases ofFirst : readSize t with
  | none =>
      simp only [ofFirst] at read
      cases read
      exact ⟨rfl, fun size isSize => absurd isSize List.not_mem_nil⟩
  | some first =>
      obtain ⟨size, behind⟩ := first
      obtain ⟨rfl, isSize⟩ := append_of_readSize ofFirst
      simp only [ofFirst] at read
      cases ofSecond : (Text.dropStart? behind "x").bind readSize with
      | none =>
          simp only [ofSecond] at read
          cases read
          exact ⟨rfl, by simpa [Sizes.toList] using isSize⟩
      | some second =>
          obtain ⟨places, left⟩ := second
          simp only [ofSecond] at read
          cases read
          obtain ⟨more, isMark, ofPlaces⟩ := Option.bind_eq_some_iff.mp ofSecond
          obtain ⟨rfl, arePlaces⟩ := append_of_readSize ofPlaces
          rw [Text.eq_append_of_dropStart? isMark]
          exact ⟨by simp [Sizes.text], by simpa [Sizes.toList] using ⟨isSize, arePlaces⟩⟩

theorem append_of_readWord
    {t rest : Text}
    {form : TypeForm}
    (read : readWord t = .ok (form, rest)) :
    t = form.text ++ rest ∧ form.IsWritten := by
  have split := List.takeWhile_append_dropWhile (p := CodePoint.isAsciiLetter) (l := t)
  have areLetters : ∀ c ∈ t.takeWhile CodePoint.isAsciiLetter, c.isAsciiLetter = true :=
    fun c => List.mem_takeWhile_imp
  rw [readWord] at read
  cases letters : t.takeWhile CodePoint.isAsciiLetter with
  | nil =>
      simp only [letters] at read
      cases read
  | cons first others =>
      simp only [letters] at read
      rw [letters] at split areLetters
      cases ofSizes : readSizes (t.dropWhile CodePoint.isAsciiLetter) with
      | mk sizes left =>
          simp only [ofSizes] at read
          cases read
          obtain ⟨whole, areSizes⟩ := append_of_readSizes ofSizes
          refine ⟨?_, areLetters, List.cons_ne_nil first others, areSizes⟩
          rw [← split, whole, text, List.append_assoc]

/-- Reads one array suffix, with its size if it has one. -/
def readSuffix? (t : Text) : Option (Option Text × Text) :=
  (Text.dropStart? t "[").bind fun inside =>
    match Text.dropStart? inside "]" with
    | some rest => some (none, rest)
    | none =>
        (readSize inside).bind fun (size, behind) =>
          (Text.dropStart? behind "]").map fun rest => (some size, rest)

/-- Suffixes are read one by one. -/
theorem readSuffixes_succ
    (fuel : Nat)
    (element : TypeForm)
    (t : Text) :
    readSuffixes (fuel + 1) element t =
      match readSuffix? t with
      | none => (element, t)
      | some (size, rest) => readSuffixes fuel (.array element size) rest := by
  rw [readSuffixes, readSuffix?]
  cases Text.dropStart? t "[" with
  | none =>
      rfl
  | some inside =>
      simp only [Option.bind_some]
      cases Text.dropStart? inside "]" with
      | some rest =>
          rfl
      | none =>
          simp only
          cases readSize inside with
          | none =>
              rfl
          | some found =>
              obtain ⟨size, behind⟩ := found
              simp only [Option.bind_some]
              cases Text.dropStart? behind "]" <;> rfl

theorem append_of_readSuffix?
    {t rest : Text}
    {size : Option Text}
    (read : readSuffix? t = some (size, rest)) :
    t = "[" ++ size.getD [] ++ "]" ++ rest ∧ ∀ digits ∈ size, IsSize digits := by
  rw [readSuffix?, Option.bind_eq_some_iff] at read
  obtain ⟨inside, opened, read⟩ := read
  rw [Text.eq_append_of_dropStart? opened]
  cases closed : Text.dropStart? inside "]" with
  | some behind =>
      simp only [closed] at read
      cases read
      rw [Text.eq_append_of_dropStart? closed]
      exact ⟨by simp, nofun⟩
  | none =>
      simp only [closed, Option.bind_eq_some_iff, Option.map_eq_some_iff, Prod.exists] at read
      obtain ⟨digits, behind, ofSize, left, closedBehind, isRead⟩ := read
      cases isRead
      obtain ⟨rfl, isSize⟩ := append_of_readSize ofSize
      rw [Text.eq_append_of_dropStart? closedBehind]
      exact ⟨by simp, by simpa using isSize⟩

theorem append_of_readSuffixes
    {fuel : Nat}
    {element form : TypeForm}
    {t rest : Text}
    (read : readSuffixes fuel element t = (form, rest))
    (isWritten : element.IsWritten) :
    element.text ++ t = form.text ++ rest ∧ form.IsWritten := by
  induction fuel generalizing element t with
  | zero =>
      cases read
      exact ⟨rfl, isWritten⟩
  | succ fuel inductionHypothesis =>
      rw [readSuffixes_succ] at read
      cases ofFirst : readSuffix? t with
      | none =>
          simp only [ofFirst] at read
          cases read
          exact ⟨rfl, isWritten⟩
      | some first =>
          obtain ⟨size, behind⟩ := first
          simp only [ofFirst] at read
          obtain ⟨rfl, isSize⟩ := append_of_readSuffix? ofFirst
          obtain ⟨whole, formIsWritten⟩ := inductionHypothesis read ⟨isWritten, isSize⟩
          refine ⟨?_, formIsWritten⟩
          rw [← whole]
          simp [text]

/-- A tuple is opened, or a word is read. -/
theorem readForm_cases
    {fuel room : Nat}
    {t left : Text}
    {form : TypeForm}
    (read : readForm (fuel + 1) room t = .ok (form, left)) :
    (∃ word rest, Text.dropStart? t "(" = none ∧ readWord t = .ok (word, rest) ∧
        readSuffixes rest.length word rest = (form, left)) ∨
      ∃ less inside members rest, room = less + 1 ∧ t = "(" ++ inside ∧
        readMembers fuel less inside = .ok (members, rest) ∧
          readSuffixes rest.length (.tuple members) rest = (form, left) := by
  rw [readForm] at read
  cases opened : Text.dropStart? t "(" with
  | none =>
      simp only [opened, map_eq_ok_iff, Prod.exists] at read
      obtain ⟨word, rest, ofWord, ofSuffixes⟩ := read
      exact Or.inl ⟨word, rest, rfl, ofWord, ofSuffixes⟩
  | some inside =>
      simp only [opened] at read
      cases room with
      | zero =>
          cases read
      | succ less =>
          rw [if_neg (Nat.succ_ne_zero less), Nat.add_sub_cancel] at read
          simp only [map_eq_ok_iff, Prod.exists] at read
          obtain ⟨members, rest, ofMembers, ofSuffixes⟩ := read
          exact Or.inr ⟨less, inside, members, rest, rfl, Text.eq_append_of_dropStart? opened,
            ofMembers, ofSuffixes⟩

/-- The text of a form is taken off the front of what is read, and so are the texts of the
members of a tuple with the parenthesis behind them. -/
theorem append_of_readForm_and_readMembers
    (fuel : Nat) :
    (∀ {room : Nat} {t rest : Text} {form : TypeForm},
        readForm fuel room t = .ok (form, rest) → t = form.text ++ rest ∧ form.IsWritten) ∧
      ∀ {room : Nat} {t rest : Text} {members : List TypeForm},
        readMembers fuel room t = .ok (members, rest) →
          t = Text.join "," (texts members) ++ (")" ++ rest) ∧ AreWritten members := by
  induction fuel with
  | zero =>
      constructor <;> intro room t rest _ read
      · rw [readForm] at read
        cases read
      · rw [readMembers] at read
        cases read
  | succ fuel inductionHypothesis =>
      obtain ⟨ofForm, ofMembers⟩ := inductionHypothesis
      constructor
      · intro room t rest form read
        rcases readForm_cases read with
          ⟨word, behind, -, ofWord, ofSuffixes⟩ |
            ⟨less, inside, members, behind, -, rfl, ofInside, ofSuffixes⟩
        · obtain ⟨rfl, isWritten⟩ := append_of_readWord ofWord
          exact append_of_readSuffixes ofSuffixes isWritten
        · obtain ⟨rfl, areWritten⟩ := ofMembers ofInside
          obtain ⟨whole, isWritten⟩ := append_of_readSuffixes ofSuffixes areWritten
          refine ⟨?_, isWritten⟩
          rw [← whole]
          simp [text]
      · intro room t rest members read
        obtain ⟨member, others, behind, rfl, ofFirst, isLast | ⟨more, rfl, ofOthers⟩⟩ :=
          readMembers_cases read
        · obtain ⟨rfl, rfl⟩ := isLast
          obtain ⟨rfl, isWritten⟩ := ofForm ofFirst
          exact ⟨by simp [texts], isWritten, trivial⟩
        · obtain ⟨rfl, isWritten⟩ := ofForm ofFirst
          obtain ⟨rfl, areWritten⟩ := ofMembers ofOthers
          refine ⟨?_, isWritten, areWritten⟩
          cases others with
          | nil =>
              -- At least one member is read behind a comma.
              cases fuel with
              | zero =>
                  rw [readMembers] at ofOthers
                  cases ofOthers
              | succ fuel =>
                  obtain ⟨_, _, _, isCons, -⟩ := readMembers_cases ofOthers
                  cases isCons
          | cons second others =>
              simp [texts]

/-!
## More behind what is read
-/

/-- Nothing that ends a type is taken by a run of other code points. -/
theorem Ends.takeWhile_append
    {rest : Text}
    (ends : Ends rest)
    (inClass : CodePoint → Bool)
    (outside : inClass '[' = false ∧ inClass ',' = false ∧ inClass ')' = false)
    (t : Text) :
    (t ++ rest).takeWhile inClass = t.takeWhile inClass ∧
      (t ++ rest).dropWhile inClass = t.dropWhile inClass ++ rest := by
  have noRun := ends.delimits.takeWhile_eq_nil outside
  have pastRun : rest.dropWhile inClass = rest := by
    have whole := List.takeWhile_append_dropWhile (p := inClass) (l := rest)
    rwa [noRun, List.nil_append] at whole
  induction t with
  | nil =>
      exact ⟨noRun, pastRun⟩
  | cons c t inductionHypothesis =>
      cases isIn : inClass c <;> simp [isIn, inductionHypothesis]

/-- A mark that cannot stand where the text ends is found only in the text. -/
theorem dropStart?_append_of_ne
    {rest : Text}
    {mark : CodePoint}
    (absent : rest.head? ≠ some mark)
    (t : Text) :
    Text.dropStart? (t ++ rest) [mark] = (Text.dropStart? t [mark]).map (· ++ rest) := by
  cases t with
  | nil =>
      cases rest with
      | nil =>
          rfl
      | cons c rest =>
          refine Text.dropStart?_cons_ne (fun same => absent ?_) rest []
          rw [List.head?_cons, same]
  | cons c t =>
      by_cases same : c = mark <;> simp [Text.dropStart?, same]

theorem Ends.head?_ne
    {rest : Text}
    (ends : Ends rest)
    (mark : CodePoint)
    (isOther : mark ≠ ',' ∧ mark ≠ ')') :
    rest.head? ≠ some mark := by
  intro first
  rcases ends mark first with same | same
  · exact isOther.1 same
  · exact isOther.2 same

theorem readSize_append_of_ends
    {rest : Text}
    (ends : Ends rest)
    (t : Text) :
    readSize (t ++ rest) = (readSize t).map fun (size, left) => (size, left ++ rest) := by
  obtain ⟨sameRun, sameRest⟩ := ends.takeWhile_append CodePoint.isAsciiDigit (by decide) t
  rw [readSize, readSize, sameRun, sameRest]
  cases t.takeWhile CodePoint.isAsciiDigit with
  | nil =>
      rfl
  | cons first digits =>
      by_cases isZero : first = '0' <;> simp [isZero]

theorem readSizes_append
    {rest : Text}
    (ends : Ends rest)
    (t : Text) :
    readSizes (t ++ rest) = ((readSizes t).1, (readSizes t).2 ++ rest) := by
  rw [readSizes, readSizes, readSize_append_of_ends ends]
  cases readSize t with
  | none =>
      rfl
  | some found =>
      obtain ⟨size, left⟩ := found
      have noMark := ends.head?_ne 'x' (by decide)
      have sameMark : (Text.dropStart? (left ++ rest) "x").bind readSize =
          ((Text.dropStart? left "x").bind readSize).map fun (size, left) =>
            (size, left ++ rest) := by
        rw [show Text.ofString "x" = [CodePoint.ofChar 'x'] from rfl,
          dropStart?_append_of_ne noMark]
        cases Text.dropStart? left [CodePoint.ofChar 'x'] with
        | none =>
            rfl
        | some behind =>
            exact readSize_append_of_ends ends behind
      simp only [Option.map_some, sameMark]
      cases (Text.dropStart? left "x").bind readSize <;> rfl

theorem readWord_append_of_ends
    {t left rest : Text}
    {form : TypeForm}
    (read : readWord t = .ok (form, left))
    (ends : Ends rest) :
    readWord (t ++ rest) = .ok (form, left ++ rest) := by
  obtain ⟨sameRun, sameRest⟩ := ends.takeWhile_append CodePoint.isAsciiLetter (by decide) t
  rw [readWord] at read ⊢
  rw [sameRun, sameRest, readSizes_append ends]
  cases letters : t.takeWhile CodePoint.isAsciiLetter with
  | nil =>
      simp only [letters] at read
      cases read
  | cons first others =>
      simp only [letters] at read ⊢
      cases read
      rfl

theorem readSuffix?_append
    {rest : Text}
    (ends : Ends rest)
    (t : Text) :
    readSuffix? (t ++ rest) = (readSuffix? t).map fun (size, left) => (size, left ++ rest) := by
  have opens : Text.ofString "[" = [CodePoint.ofChar '['] := rfl
  have closes : Text.ofString "]" = [CodePoint.ofChar ']'] := rfl
  have noOpening := ends.head?_ne '[' (by decide)
  have noClosing := ends.head?_ne ']' (by decide)
  rw [readSuffix?, readSuffix?, opens, closes, dropStart?_append_of_ne noOpening]
  cases Text.dropStart? t [CodePoint.ofChar '['] with
  | none =>
      rfl
  | some inside =>
      simp only [Option.map_some, Option.bind_some, dropStart?_append_of_ne noClosing,
        readSize_append_of_ends ends]
      cases Text.dropStart? inside [CodePoint.ofChar ']'] with
      | some left =>
          rfl
      | none =>
          simp only [Option.map_none]
          cases readSize inside with
          | none =>
              rfl
          | some found =>
              obtain ⟨size, behind⟩ := found
              simp only [Option.map_some, Option.bind_some, dropStart?_append_of_ne noClosing]
              cases Text.dropStart? behind [CodePoint.ofChar ']'] <;> rfl

/-- Suffixes are read to the end of the type, whatever stands behind it and whatever fuel is
left over. -/
theorem readSuffixes_append
    {fuel more : Nat}
    {element form : TypeForm}
    {t left rest : Text}
    (enough : t.length ≤ fuel)
    (read : readSuffixes fuel element t = (form, left))
    (ends : Ends rest)
    (stillEnough : (t ++ rest).length ≤ more) :
    readSuffixes more element (t ++ rest) = (form, left ++ rest) := by
  induction fuel generalizing more element t with
  | zero =>
      cases read
      cases List.eq_nil_of_length_eq_zero (Nat.le_zero.mp enough)
      cases more with
      | zero =>
          rfl
      | succ more =>
          rw [readSuffixes_succ, readSuffix?_append ends]
          rfl
  | succ fuel inductionHypothesis =>
      rw [readSuffixes_succ] at read
      cases ofFirst : readSuffix? t with
      | none =>
          simp only [ofFirst] at read
          cases read
          cases more with
          | zero =>
              rfl
          | succ more =>
              rw [readSuffixes_succ, readSuffix?_append ends, ofFirst]
              rfl
      | some first =>
          obtain ⟨size, behind⟩ := first
          simp only [ofFirst] at read
          -- A suffix is not empty, so that less fuel is needed for the others.
          have shorter : behind.length < t.length := by
            rw [(append_of_readSuffix? ofFirst).1]
            simp only [List.length_append]
            have opens : (Text.ofString "[").length = 1 := rfl
            omega
          rw [List.length_append] at stillEnough
          obtain ⟨more, rfl⟩ : ∃ less, more = less + 1 := ⟨more - 1, by omega⟩
          rw [readSuffixes_succ, readSuffix?_append ends, ofFirst]
          exact inductionHypothesis (by omega) read
            (by rw [List.length_append]; omega)

theorem readForm_of_word
    (fuel room : Nat)
    {t rest left : Text}
    {word form : TypeForm}
    (notOpened : Text.dropStart? t "(" = none)
    (ofWord : readWord t = .ok (word, rest))
    (ofSuffixes : readSuffixes rest.length word rest = (form, left)) :
    readForm (fuel + 1) room t = .ok (form, left) := by
  rw [readForm, notOpened]
  simp only [ofWord, Except.map, ofSuffixes]

theorem readForm_of_members
    {fuel room : Nat}
    {inside rest left : Text}
    {members : List TypeForm}
    {form : TypeForm}
    (ofMembers : readMembers fuel room inside = .ok (members, rest))
    (ofSuffixes : readSuffixes rest.length (.tuple members) rest = (form, left)) :
    readForm (fuel + 1) (room + 1) ("(" ++ inside) = .ok (form, left) := by
  rw [readForm, Text.dropStart?_append]
  simp only [if_neg (Nat.succ_ne_zero room), Nat.add_sub_cancel, ofMembers, Except.map,
    ofSuffixes]

theorem readMembers_of_last
    {fuel room : Nat}
    {t left : Text}
    {member : TypeForm}
    (ofMember : readForm fuel room t = .ok (member, ")" ++ left)) :
    readMembers (fuel + 1) room t = .ok ([member], left) := by
  rw [readMembers, ofMember]
  simp only [Text.dropStart?_append]

theorem readMembers_of_more
    {fuel room : Nat}
    {t behind left : Text}
    {member : TypeForm}
    {others : List TypeForm}
    (ofMember : readForm fuel room t = .ok (member, "," ++ behind))
    (ofOthers : readMembers fuel room behind = .ok (others, left)) :
    readMembers (fuel + 1) room t = .ok (member :: others, left) := by
  have notClosed : Text.dropStart? ("," ++ behind) ")" = none :=
    Text.dropStart?_cons_ne (by decide) behind []
  rw [readMembers, ofMember]
  simp only [notClosed, Text.dropStart?_append, ofOthers, Except.map]

/-- More fuel and room for more parentheses change nothing. -/
theorem readForm_mono_and_readMembers_mono
    {fuel more : Nat}
    (atMost : fuel ≤ more) :
    (∀ {room roomier : Nat} {t left : Text} {form : TypeForm}, room ≤ roomier →
        readForm fuel room t = .ok (form, left) → readForm more roomier t = .ok (form, left)) ∧
      ∀ {room roomier : Nat} {t left : Text} {members : List TypeForm}, room ≤ roomier →
        readMembers fuel room t = .ok (members, left) →
          readMembers more roomier t = .ok (members, left) := by
  induction fuel generalizing more with
  | zero =>
      constructor <;> intro room roomier t left _ _ read
      · rw [readForm] at read
        cases read
      · rw [readMembers] at read
        cases read
  | succ fuel inductionHypothesis =>
      obtain ⟨more, rfl⟩ : ∃ less, more = less + 1 := ⟨more - 1, by omega⟩
      obtain ⟨ofForm, ofMembers⟩ := inductionHypothesis (Nat.le_of_succ_le_succ atMost)
      constructor
      · intro room roomier t left form roomEnough read
        rcases readForm_cases read with
          ⟨word, rest, notOpened, ofWord, ofSuffixes⟩ |
            ⟨less, inside, members, rest, rfl, rfl, ofInside, ofSuffixes⟩
        · exact readForm_of_word more roomier notOpened ofWord ofSuffixes
        · obtain ⟨roomier, rfl⟩ : ∃ less, roomier = less + 1 := ⟨roomier - 1, by omega⟩
          exact readForm_of_members (ofMembers (Nat.le_of_succ_le_succ roomEnough) ofInside)
            ofSuffixes
      · intro room roomier t left members roomEnough read
        obtain ⟨member, others, behind, rfl, ofFirst, ⟨rfl, rfl⟩ | ⟨next, rfl, ofOthers⟩⟩ :=
          readMembers_cases read
        · exact readMembers_of_last (ofForm roomEnough ofFirst)
        · exact readMembers_of_more (ofForm roomEnough ofFirst) (ofMembers roomEnough ofOthers)

/-- What is read does not depend on fuel and room. -/
theorem readForm_unique
    {fuel more room roomier : Nat}
    {t left otherLeft : Text}
    {form other : TypeForm}
    (read : readForm fuel room t = .ok (form, left))
    (readOther : readForm more roomier t = .ok (other, otherLeft)) :
    form = other ∧ left = otherLeft := by
  -- Both readings can be carried out with the greater fuel and in the greater room.
  have first := (readForm_mono_and_readMembers_mono (Nat.le_max_left fuel more)).1
    (Nat.le_max_left room roomier) read
  have second := (readForm_mono_and_readMembers_mono (Nat.le_max_right fuel more)).1
    (Nat.le_max_right room roomier) readOther
  rw [first] at second
  cases second
  exact ⟨rfl, rfl⟩

/-- With something behind the end of a type the same form is read. -/
theorem readForm_append_and_readMembers_append
    {rest : Text}
    (ends : Ends rest)
    (fuel : Nat) :
    (∀ {room : Nat} {t left : Text} {form : TypeForm}, readForm fuel room t = .ok (form, left) →
        readForm fuel room (t ++ rest) = .ok (form, left ++ rest)) ∧
      ∀ {room : Nat} {t left : Text} {members : List TypeForm},
        readMembers fuel room t = .ok (members, left) →
          readMembers fuel room (t ++ rest) = .ok (members, left ++ rest) := by
  induction fuel with
  | zero =>
      constructor <;> intro room t left _ read
      · rw [readForm] at read
        cases read
      · rw [readMembers] at read
        cases read
  | succ fuel inductionHypothesis =>
      obtain ⟨ofForm, ofMembers⟩ := inductionHypothesis
      constructor
      · intro room t left form read
        rcases readForm_cases read with
          ⟨word, behind, notOpened, ofWord, ofSuffixes⟩ |
            ⟨less, inside, members, behind, rfl, rfl, ofInside, ofSuffixes⟩
        · have stillNotOpened : Text.dropStart? (t ++ rest) "(" = none := by
            rw [show Text.ofString "(" = [CodePoint.ofChar '('] from rfl] at notOpened ⊢
            rw [dropStart?_append_of_ne (ends.head?_ne '(' (by decide)), notOpened]
            rfl
          exact readForm_of_word fuel room stillNotOpened (readWord_append_of_ends ofWord ends)
            (readSuffixes_append (Nat.le_refl _) ofSuffixes ends (Nat.le_refl _))
        · rw [List.append_assoc]
          exact readForm_of_members (ofMembers ofInside)
            (readSuffixes_append (Nat.le_refl _) ofSuffixes ends (Nat.le_refl _))
      · intro room t left members read
        obtain ⟨member, others, behind, rfl, ofFirst, ⟨rfl, rfl⟩ | ⟨next, rfl, ofOthers⟩⟩ :=
          readMembers_cases read
        · have first := ofForm ofFirst
          rw [List.append_assoc] at first
          exact readMembers_of_last first
        · have first := ofForm ofFirst
          rw [List.append_assoc] at first
          exact readMembers_of_more first (ofMembers ofOthers)

theorem readForm_of_ofText
    {t : Text}
    {form : TypeForm}
    (alone : ofText t = .ok form) :
    readForm (2 * t.length + 1) greatestNesting t = .ok (form, []) := by
  rw [ofText] at alone
  split at alone
  · cases alone
  · next readsForm =>
    split at alone
    · next isEmpty =>
      cases alone
      rw [readsForm, List.isEmpty_iff.mp isEmpty]
    · cases alone

/-- A text that is a form by itself is read as this form in front of the end of a type. -/
theorem eq_of_readForm
    {t rest left : Text}
    {form found : TypeForm}
    (alone : ofText t = .ok form)
    (ends : Ends rest)
    {fuel room : Nat}
    (read : readForm fuel room (t ++ rest) = .ok (found, left)) :
    found = form ∧ left = rest := by
  have inFront := (readForm_append_and_readMembers_append ends _).1 (readForm_of_ofText alone)
  rw [List.nil_append] at inFront
  exact readForm_unique read inFront

theorem readForm_ne_closing
    (fuel room : Nat)
    (rest : Text)
    (found : TypeForm × Text) :
    readForm fuel room (")" ++ rest) ≠ .ok found := by
  intro read
  cases fuel with
  | zero =>
      rw [readForm] at read
      cases read
  | succ fuel =>
      have notOpened : Text.dropStart? (")" ++ rest) "(" = none :=
        Text.dropStart?_cons_ne (by decide) rest []
      have noWord : readWord (")" ++ rest) = .error .malformed := by
        rfl
      rw [readForm, notOpened, noWord] at read
      cases read

/-- Texts that are forms by themselves are read as the members of a tuple. -/
theorem eq_of_readMembers
    {parts : List Text}
    {forms : List TypeForm}
    (alone : parts.mapM ofText = .ok forms)
    {rest left : Text}
    {fuel room : Nat}
    {members : List TypeForm}
    (read : readMembers fuel room (Text.join "," parts ++ (")" ++ rest)) = .ok (members, left)) :
    members = forms ∧ left = rest := by
  induction parts generalizing forms members fuel with
  | nil =>
      cases fuel with
      | zero =>
          rw [readMembers] at read
          cases read
      | succ fuel =>
          obtain ⟨_, _, _, -, ofFirst, -⟩ := readMembers_cases read
          exact absurd ofFirst (readForm_ne_closing fuel room rest _)
  | cons part parts inductionHypothesis =>
      simp only [List.mapM_cons, bind_eq_ok_iff, pure_eq_ok_iff] at alone
      obtain ⟨form, partAlone, others, othersAlone, rfl⟩ := alone
      cases fuel with
      | zero =>
          rw [readMembers] at read
          cases read
      | succ fuel =>
          obtain ⟨member, otherMembers, behind, rfl, ofFirst, next⟩ := readMembers_cases read
          cases parts with
          | nil =>
              cases othersAlone
              rw [Text.join_singleton] at ofFirst
              obtain ⟨rfl, rfl⟩ := eq_of_readForm partAlone (ends_closing rest) ofFirst
              rcases next with ⟨isLast, rfl⟩ | ⟨more, isMore, -⟩
              · exact ⟨rfl, (List.append_cancel_left isLast).symm⟩
              · cases isMore
          | cons second parts =>
              rw [Text.join_cons_cons, List.append_assoc, List.append_assoc] at ofFirst
              obtain ⟨rfl, rfl⟩ := eq_of_readForm partAlone (ends_comma _) ofFirst
              rcases next with ⟨isLast, -⟩ | ⟨more, isMore, ofOthers⟩
              · cases isLast
              · rw [← List.append_cancel_left isMore] at ofOthers
                obtain ⟨rfl, rfl⟩ := inductionHypothesis othersAlone ofOthers
                exact ⟨rfl, rfl⟩

end TypeForm

namespace AbiType

theorem form_of_ofText
    {t : Text}
    {type : AbiType}
    (read : ofText t = .ok type) :
    ∃ form,
      TypeForm.readForm (2 * t.length + 1) TypeForm.greatestNesting t = .ok (form, []) ∧
        ofForm? form = some type := by
  rw [ofText, TypeForm.ofText] at read
  cases ofWhole : TypeForm.readForm (2 * t.length + 1) TypeForm.greatestNesting t with
  | error failure =>
      rw [ofWhole] at read
      cases failure <;> cases read
  | ok found =>
      obtain ⟨form, rest⟩ := found
      rw [ofWhole] at read
      cases rest with
      | cons c rest =>
          cases read
      | nil =>
          refine ⟨form, rfl, ?_⟩
          simp only [List.isEmpty_nil, ↓reduceIte] at read
          repeat' split at read
          all_goals cases read
          assumption

/-- A type is meant by the one form whose text it is read from. -/
theorem exists_form_of_ofText
    {t : Text}
    {type : AbiType}
    (read : ofText t = .ok type) :
    ∃ form : TypeForm, form.text = t ∧ form.IsWritten ∧ ofForm? form = some type := by
  obtain ⟨form, ofWhole, meant⟩ := form_of_ofText read
  obtain ⟨whole, isWritten⟩ := (TypeForm.append_of_readForm_and_readMembers _).1 ofWhole
  rw [List.append_nil] at whole
  exact ⟨form, whole.symm, isWritten, meant⟩

end AbiType

end ContractBindings
