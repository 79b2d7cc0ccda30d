import Mathlib.Data.List.Nodup
import ContractBindings.Json.Reader
import ContractBindings.Json.Writer
import ContractBindings.Proofs.DeclaredValues
import ContractBindings.Proofs.Texts

namespace ContractBindings

/-!
# Documents that are written and read

A document without numbers that is written on one line is read back as it was, if its names
are different in each object and no more arrays and objects stand in each other than the
reader follows.  Main statements: `Json.read_compact` and `Json.Node.isScalar_compact`.
-/

namespace Json

/-!
## Texts between quotes
-/

variable (opening done : Text) (fuel : Nat) (next : CodePoint) (rest : Text)

/-- The four digits of a small number are read back. -/
theorem unicodeEscape_hexPadded
    {n : Nat}
    (isSmall : n < 0x20) :
    unicodeEscape (('u' : CodePoint) :: (Text.hexPadded 4 n ++ next :: rest)) =
      .ok (CodePoint.ofNat n, next :: rest) := by
  have digits : Text.hexPadded 4 n =
      [Octets.hexDigit (n / 16 / 16 / 16 % 16), Octets.hexDigit (n / 16 / 16 % 16),
        Octets.hexDigit (n / 16 % 16), Octets.hexDigit (n % 16)] := by
    rfl
  have isRead : hex4? (Octets.hexDigit (n / 16 / 16 / 16 % 16))
      (Octets.hexDigit (n / 16 / 16 % 16)) (Octets.hexDigit (n / 16 % 16))
      (Octets.hexDigit (n % 16)) = some n := by
    have below : ∀ m, m % 16 < 16 := fun m => Nat.mod_lt m (by decide)
    simp only [hex4?, Octets.hexDigit?_hexDigit (below _), Option.pure_def, Option.bind_eq_bind,
      Option.bind_some, Option.some.injEq]
    omega
  have isWhole : isHighSurrogate n = false := by
    rw [isHighSurrogate, Bool.and_eq_false_iff]
    exact .inl (decide_eq_false (by omega))
  rw [digits]
  simp only [List.cons_append, List.nil_append, unicodeEscape, isRead, isWhole,
    Bool.false_eq_true, ↓reduceIte]

theorem readText_unicodeEscapeOf
    {c : CodePoint}
    (isControl : c.val < 0x20) :
    readText opening (fuel + 1) done (unicodeEscapeOf c.val ++ next :: rest) =
      readText opening fuel (c :: done) (next :: rest) := by
  have isEscape : unicodeEscapeOf c.val ++ next :: rest =
      ('\\' : CodePoint) :: ('u' : CodePoint) :: (Text.hexPadded 4 c.val ++ next :: rest) := by
    rfl
  rw [isEscape, readText, if_neg (by decide), if_pos rfl, if_pos rfl,
    unicodeEscape_hexPadded next rest isControl, CodePoint.ofNat_val]

theorem readText_simpleEscape
    {e c : CodePoint}
    (isLetter : e ≠ 'u')
    (isEscape : simpleEscape? e = some c) :
    readText opening (fuel + 1) done (('\\' : CodePoint) :: e :: rest) =
      readText opening fuel (c :: done) rest := by
  rw [readText, if_neg (by decide), if_pos rfl, if_neg isLetter, isEscape]

/-- A code point between quotes is read back, whatever follows it. -/
theorem readText_quoteOne
    (c : CodePoint) :
    readText opening (fuel + 1) done (quoteOne false c ++ next :: rest) =
      readText opening fuel (c :: done) (next :: rest) := by
  fun_cases quoteOne false c with
  | case1 isQuote =>
      subst isQuote
      exact readText_simpleEscape opening done fuel _ (e := '"') (by decide) (by decide)
  | case2 _ isBackslash =>
      subst isBackslash
      exact readText_simpleEscape opening done fuel _ (e := '\\') (by decide) (by decide)
  | case3 _ _ isNewline =>
      subst isNewline
      exact readText_simpleEscape opening done fuel _ (e := 'n') (by decide) (by decide)
  | case4 _ _ _ isReturn =>
      subst isReturn
      exact readText_simpleEscape opening done fuel _ (e := 'r') (by decide) (by decide)
  | case5 _ _ _ _ isTab =>
      subst isTab
      exact readText_simpleEscape opening done fuel _ (e := 't') (by decide) (by decide)
  | case6 _ _ _ _ _ isBack =>
      obtain rfl : c = 0x08 := Fin.ext isBack
      exact readText_simpleEscape opening done fuel _ (e := 'b') (by decide) (by decide)
  | case7 _ _ _ _ _ _ isFeed =>
      obtain rfl : c = 0x0C := Fin.ext isFeed
      exact readText_simpleEscape opening done fuel _ (e := 'f') (by decide) (by decide)
  | case8 _ _ _ _ _ _ _ isControl =>
      exact readText_unicodeEscapeOf opening done fuel next rest isControl
  | case9 isNoQuote isNoBackslash _ _ _ _ _ isNoControl =>
      rw [List.singleton_append, readText, if_neg isNoQuote, if_neg isNoBackslash,
        if_neg isNoControl]
  | case10 _ _ _ _ _ _ _ _ isAscii | case11 _ _ _ _ _ _ _ _ isAscii =>
      exact absurd rfl isAscii

/-- What was written between quotes is read up to the closing one. -/
theorem readText_flatMap_quoteOne
    (t : Text)
    (enough : t.length ≤ fuel) :
    readText opening (fuel + 1) done (t.flatMap (quoteOne false) ++ ('"' : CodePoint) :: rest) =
      .ok (done.reverse ++ t, rest) := by
  induction t generalizing done fuel with
  | nil =>
      rw [List.flatMap_nil, List.nil_append, List.append_nil]
      cases rest <;> rw [readText, if_pos rfl]
  | cons c t inductionHypothesis =>
      -- A quoted code point is read when another one follows, if only the closing quote.
      obtain ⟨next, others, isFollowed⟩ : ∃ next others,
          t.flatMap (quoteOne false) ++ ('"' : CodePoint) :: rest = next :: others :=
        List.exists_cons_of_ne_nil (by simp)
      rw [List.length_cons] at enough
      obtain ⟨fuel, rfl⟩ := Nat.exists_eq_add_of_le' (Nat.le_of_add_left_le enough)
      rw [List.flatMap_cons, List.append_assoc, isFollowed, readText_quoteOne, ← isFollowed,
        inductionHypothesis (c :: done) fuel (by omega), List.reverse_cons, List.append_assoc,
        List.singleton_append]

theorem length_le_length_flatMap_quoteOne
    (t : Text) :
    t.length ≤ (t.flatMap (quoteOne false)).length := by
  have isLonger : ∀ c : CodePoint, 1 ≤ (quoteOne false c).length := by
    intro c
    fun_cases quoteOne false c
    any_goals decide
    all_goals
      simp only [unicodeEscapeOf, Text.hexPadded, List.length_append, List.length_singleton]
      omega
  induction t with
  | nil =>
      exact Nat.le_refl _
  | cons c t inductionHypothesis =>
      have ofFirst := isLonger c
      rw [List.flatMap_cons, List.length_append, List.length_cons]
      omega

/-- A text between quotes is read back. -/
theorem readText_quote
    (t : Text) :
    readText opening ((t.flatMap (quoteOne false) ++ ('"' : CodePoint) :: rest).length + 1) []
        (t.flatMap (quoteOne false) ++ ('"' : CodePoint) :: rest) =
      .ok (t, rest) := by
  refine readText_flatMap_quoteOne opening [] _ rest t ?_
  have atLeast := length_le_length_flatMap_quoteOne t
  rw [List.length_append]
  omega

theorem quote_append
    (t : Text) :
    quote false t ++ rest =
      ('"' : CodePoint) :: (t.flatMap (quoteOne false) ++ ('"' : CodePoint) :: rest) := by
  simp [quote, Text.ofString]

theorem skipBlanks_cons
    {c : CodePoint}
    (noBlank : isBlank c = false) :
    skipBlanks (c :: rest) = c :: rest :=
  List.dropWhile_cons_of_neg (by simp [noBlank])

/-!
## Steps of the reader
-/

variable {fuel next rest}
variable {room : Nat} {t : Text} {v : Value}

theorem readElements_last
    (done : List Value)
    (ofValue : readValue fuel room t = .ok (v, (']' : CodePoint) :: rest)) :
    readElements (fuel + 1) room done t = .ok (.list (done.reverse ++ [v]), rest) := by
  rw [readElements, ofValue]
  dsimp only
  rw [skipBlanks_cons _ (by decide)]
  dsimp only
  rw [if_pos rfl, List.reverse_cons]

theorem readElements_next
    (done : List Value)
    (ofValue :
      readValue fuel room t = .ok (v, (',' : CodePoint) :: next :: rest))
    (noBlank : isBlank next = false) :
    readElements (fuel + 1) room done t =
      readElements fuel room (v :: done) (next :: rest) := by
  rw [readElements, ofValue]
  dsimp only
  rw [skipBlanks_cons _ (by decide)]
  dsimp only
  rw [if_neg (by decide), if_pos rfl, skipBlanks_cons _ noBlank]

/-- The value of a member is read behind its name and a colon, and the mark behind it says
whether others follow. -/
theorem readMembers_member
    (done : Entries)
    (name : Text)
    (noBlank : skipBlanks t = t)
    {mark : CodePoint}
    (ofValue : readValue fuel room t = .ok (v, mark :: rest))
    (noBlankMark : isBlank mark = false) :
    readMembers (fuel + 1) room done (quote false name ++ (':' : CodePoint) :: t) =
      if mark = '\x7d' then .ok (.dict (done.set (.text name) v), rest)
      else if mark = ',' then readMembers fuel room (done.set (.text name) v) (skipBlanks rest)
      else .error ⟨.expectedComma, mark :: rest⟩ := by
  rw [quote_append, readMembers, if_neg (by simp), readText_quote]
  dsimp only
  rw [skipBlanks_cons _ (by decide)]
  dsimp only
  rw [if_neg (by simp), noBlank, ofValue]
  dsimp only
  rw [skipBlanks_cons _ noBlankMark]

theorem readMembers_last
    (done : Entries)
    (name : Text)
    (noBlank : skipBlanks t = t)
    (ofValue : readValue fuel room t = .ok (v, ('\x7d' : CodePoint) :: rest)) :
    readMembers (fuel + 1) room done (quote false name ++ (':' : CodePoint) :: t) =
      .ok (.dict (done.set (.text name) v), rest) := by
  rw [readMembers_member done name noBlank ofValue (by decide), if_pos rfl]

theorem readMembers_next
    (done : Entries)
    (name : Text)
    (noBlank : skipBlanks t = t)
    (ofValue :
      readValue fuel room t = .ok (v, (',' : CodePoint) :: next :: rest))
    (noBlankNext : isBlank next = false) :
    readMembers (fuel + 1) room done (quote false name ++ (':' : CodePoint) :: t) =
      readMembers fuel room (done.set (.text name) v) (next :: rest) := by
  rw [readMembers_member done name noBlank ofValue (by decide), if_neg (by decide), if_pos rfl,
    skipBlanks_cons _ noBlankNext]

/-- A word at the front of a text is read, if no other one stands there. -/
theorem readValue_word
    {c : CodePoint}
    {others : Text}
    (starts : t = c :: others)
    (isWord : c ≠ '"' ∧ c ≠ '\x7b' ∧ c ≠ '[')
    (found : (words.findSome? fun (word, v) => (t.dropStart? word).map (v, ·)) = some (v, rest)) :
    readValue (fuel + 1) room t = .ok (v, rest) := by
  subst starts
  obtain ⟨noQuote, noObject, noArray⟩ := isWord
  rw [readValue, if_neg noQuote, if_neg (by simp [noObject, noArray]), if_neg noObject,
    if_neg noArray, readScalar, found]

namespace Node

/-!
## Values of documents
-/

mutual

/-- The value that a document writes. -/
def toValue : Node → Value
  | .null => .null
  | .bool b => .bool b
  | .number digits =>
      match readNumber digits with
      | .ok (v, _) => v
      | .error _ => .null
  | .text t => .text t
  | .array nodes => .list (toValues nodes)
  | .object members => .dict (toEntries members)

/-- The values of several documents. -/
def toValues : List Node → List Value
  | [] => []
  | node :: nodes => toValue node :: toValues nodes

/-- The values of documents under their names. -/
def toEntries : List (Text × Node) → Entries
  | [] => []
  | (name, node) :: members => (.text name, toValue node) :: toEntries members

end

mutual

/-- How many arrays and objects stand in each other. -/
def depth : Node → Nat
  | .array nodes => depthAll nodes + 1
  | .object members => depthMembers members + 1
  | _ => 0

def depthAll : List Node → Nat
  | [] => 0
  | node :: nodes => max (depth node) (depthAll nodes)

def depthMembers : List (Text × Node) → Nat
  | [] => 0
  | (_, node) :: members => max (depth node) (depthMembers members)

end

mutual

/-- Whether there is no number in a document and no name twice in an object. -/
def isPlain : Node → Bool
  | .number _ => false
  | .array nodes => allPlain nodes
  | .object members => (members.map (·.1)).Nodup && membersPlain members
  | _ => true

def allPlain : List Node → Bool
  | [] => true
  | node :: nodes => isPlain node && allPlain nodes

def membersPlain : List (Text × Node) → Bool
  | [] => true
  | (_, node) :: members => isPlain node && membersPlain members

end

/-- What holds of a document if it holds of those in it, holds of all documents. -/
theorem inductionOnMembers
    {motive : Node → Prop}
    (null : motive .null)
    (bool : ∀ b, motive (.bool b))
    (number : ∀ digits, motive (.number digits))
    (text : ∀ t, motive (.text t))
    (array : ∀ nodes, (∀ node ∈ nodes, motive node) → motive (.array nodes))
    (object : ∀ members, (∀ member ∈ members, motive member.2) → motive (.object members))
    (node : Node) :
    motive node :=
  Node.rec null bool number text array object
    (fun _ member => absurd member List.not_mem_nil)
    (fun _ _ first others _ member =>
      (List.mem_cons.mp member).elim (fun same => same ▸ first) (others _))
    (fun _ member => absurd member List.not_mem_nil)
    (fun _ _ first others _ member =>
      (List.mem_cons.mp member).elim (fun same => same ▸ first) (others _))
    (fun _ _ isNode => isNode)
    node

theorem isPlain_of_allPlain
    {nodes : List Node}
    (plain : allPlain nodes = true) :
    ∀ node ∈ nodes, node.isPlain = true := by
  induction nodes with
  | nil =>
      exact nofun
  | cons node nodes inductionHypothesis =>
      rw [allPlain, Bool.and_eq_true] at plain
      exact List.forall_mem_cons.mpr ⟨plain.1, inductionHypothesis plain.2⟩

theorem isPlain_of_membersPlain
    {members : List (Text × Node)}
    (plain : membersPlain members = true) :
    ∀ member ∈ members, member.2.isPlain = true := by
  induction members with
  | nil =>
      exact nofun
  | cons member members inductionHypothesis =>
      rw [membersPlain, Bool.and_eq_true] at plain
      exact List.forall_mem_cons.mpr ⟨plain.1, inductionHypothesis plain.2⟩

/-- A document starts with a code point that is no blank and ends no array. -/
theorem exists_compact_eq_cons
    (node : Node)
    (plain : node.isPlain = true) :
    ∃ c t, node.compact false = c :: t ∧ isBlank c = false ∧ c ≠ ']' ∧ c ≠ 0xFEFF := by
  cases node with
  | null =>
      exact ⟨_, _, rfl, by decide⟩
  | bool b =>
      cases b <;> exact ⟨_, _, rfl, by decide⟩
  | number digits =>
      cases plain
  | text t =>
      exact ⟨_, _, rfl, by decide⟩
  | array nodes =>
      exact ⟨_, _, rfl, by decide⟩
  | object members =>
      exact ⟨_, _, rfl, by decide⟩

theorem skipBlanks_compact
    {node : Node}
    (plain : node.isPlain = true)
    (rest : Text) :
    skipBlanks (node.compact false ++ rest) = node.compact false ++ rest := by
  obtain ⟨c, t, starts, noBlank, -⟩ := exists_compact_eq_cons node plain
  rw [starts]
  exact skipBlanks_cons (t ++ rest) noBlank

/-- So do several documents, one after another. -/
theorem exists_compactAll_eq_cons
    {nodes : List Node}
    (notEmpty : nodes ≠ [])
    (plain : allPlain nodes = true) :
    ∃ c t,
      Text.join "," (compactAll false nodes) = c :: t ∧ isBlank c = false ∧ c ≠ ']' := by
  cases nodes with
  | nil =>
      exact absurd rfl notEmpty
  | cons node others =>
      rw [allPlain, Bool.and_eq_true] at plain
      obtain ⟨c, t, starts, noBlank, noEnd, -⟩ := exists_compact_eq_cons node plain.1
      cases others with
      | nil =>
          exact ⟨c, t, by rw [compactAll, compactAll, Text.join_singleton, starts], noBlank, noEnd⟩
      | cons second others =>
          exact ⟨c, _, by rw [compactAll, compactAll, Text.join_cons_cons, starts,
            List.cons_append], noBlank, noEnd⟩

/-- Members start with the quote of the first name. -/
theorem exists_compactMembers_eq_cons
    {members : List (Text × Node)}
    (notEmpty : members ≠ []) :
    ∃ t, Text.join "," (compactMembers false members) = ('"' : CodePoint) :: t := by
  rcases members with _ | ⟨⟨name, node⟩, _ | ⟨⟨otherName, other⟩, others⟩⟩
  · exact absurd rfl notEmpty
  · rw [compactMembers, compactMembers, Text.join_singleton, List.append_assoc, quote_append]
    exact ⟨_, rfl⟩
  · rw [compactMembers, compactMembers, Text.join_cons_cons, List.append_assoc,
      List.append_assoc, quote_append]
    exact ⟨_, rfl⟩

/-!
## Reading documents back
-/

/-- A document is read back in front of any text, where there is room for it. -/
def IsReadBack (node : Node) : Prop :=
  ∀ {fuel room : Nat} (rest : Text), (node.compact false).length ≤ fuel → node.depth ≤ room →
    readValue fuel room (node.compact false ++ rest) = .ok (node.toValue, rest)

/-- Elements are read back one after another. -/
theorem readElements_compactAll
    {nodes : List Node}
    (notEmpty : nodes ≠ [])
    (plain : allPlain nodes = true)
    (each : ∀ node ∈ nodes, node.IsReadBack)
    {fuel room : Nat}
    (done : List Value)
    (rest : Text)
    (enough : (Text.join "," (compactAll false nodes)).length < fuel)
    (shallow : depthAll nodes ≤ room) :
    readElements fuel room done
        (Text.join "," (compactAll false nodes) ++ (']' : CodePoint) :: rest) =
      .ok (.list (done.reverse ++ toValues nodes), rest) := by
  induction nodes generalizing fuel done with
  | nil =>
      exact absurd rfl notEmpty
  | cons node others inductionHypothesis =>
      obtain ⟨fuel, rfl⟩ := Nat.exists_eq_add_of_le' (Nat.one_le_of_lt enough)
      rw [allPlain, Bool.and_eq_true] at plain
      obtain ⟨isReadBack, areReadBack⟩ := List.forall_mem_cons.mp each
      rw [depthAll, Nat.max_le] at shallow
      cases others with
      | nil =>
          rw [compactAll, compactAll, Text.join_singleton] at enough ⊢
          exact readElements_last done (isReadBack _ (by omega) shallow.1)
      | cons second others =>
          obtain ⟨c, t, starts, noBlank, -⟩ :=
            exists_compactAll_eq_cons (List.cons_ne_nil second others) plain.2
          have isWritten : Text.join "," (compactAll false (node :: second :: others)) =
              node.compact false ++ (',' : CodePoint) :: c :: t := by
            rw [compactAll, compactAll, Text.join_cons_cons, ← compactAll, starts]
            rfl
          rw [isWritten] at enough ⊢
          rw [List.length_append, List.length_cons] at enough
          have enoughLeft :
              (Text.join "," (compactAll false (second :: others))).length < fuel := by
            rw [starts]
            omega
          have ofOthers := inductionHypothesis (List.cons_ne_nil _ _) plain.2 areReadBack
            (node.toValue :: done) enoughLeft shallow.2
          rw [starts, List.cons_append] at ofOthers
          rw [List.append_assoc, List.cons_append, List.cons_append,
            readElements_next done (isReadBack _ (by omega) shallow.1) noBlank, ofOthers,
            List.reverse_cons, List.append_assoc]
          rfl

/-- Members are read back one after another, below names that are new. -/
theorem readMembers_compactMembers
    {members : List (Text × Node)}
    (notEmpty : members ≠ [])
    (plain : membersPlain members = true)
    (each : ∀ member ∈ members, member.2.IsReadBack)
    {fuel room : Nat}
    {done : Entries}
    (differ : (done.map (·.1) ++ members.map (Key.text ·.1)).Nodup)
    (rest : Text)
    (enough : (Text.join "," (compactMembers false members)).length < fuel)
    (shallow : depthMembers members ≤ room) :
    readMembers fuel room done
        (Text.join "," (compactMembers false members) ++ ('\x7d' : CodePoint) :: rest) =
      .ok (.dict (done ++ toEntries members), rest) := by
  induction members generalizing fuel done with
  | nil =>
      exact absurd rfl notEmpty
  | cons member others inductionHypothesis =>
      obtain ⟨name, node⟩ := member
      obtain ⟨fuel, rfl⟩ := Nat.exists_eq_add_of_le' (Nat.one_le_of_lt enough)
      rw [membersPlain, Bool.and_eq_true] at plain
      obtain ⟨(isReadBack : node.IsReadBack), areReadBack⟩ := List.forall_mem_cons.mp each
      rw [depthMembers, Nat.max_le] at shallow
      have isNew : Key.text name ∉ done.map (·.1) := fun isKnown =>
        (List.nodup_append.mp differ).2.2 _ isKnown _ List.mem_cons_self rfl
      cases others with
      | nil =>
          have isWritten : Text.join "," (compactMembers false [(name, node)]) =
              quote false name ++ (':' : CodePoint) :: node.compact false := by
            rw [compactMembers, compactMembers, Text.join_singleton, List.append_assoc]
            rfl
          rw [isWritten] at enough ⊢
          rw [List.length_append, List.length_cons] at enough
          rw [List.append_assoc, List.cons_append,
            readMembers_last done name (skipBlanks_compact plain.1 _)
              (isReadBack _ (by omega) shallow.1), Entries.set_of_absent isNew]
          rfl
      | cons second others =>
          obtain ⟨otherName, other⟩ := second
          obtain ⟨t, starts⟩ :=
            exists_compactMembers_eq_cons (List.cons_ne_nil (otherName, other) others)
          have isWritten :
              Text.join "," (compactMembers false ((name, node) :: (otherName, other) :: others)) =
                quote false name ++
                  (':' : CodePoint) :: (node.compact false ++
                    (',' : CodePoint) :: ('"' : CodePoint) :: t) := by
            rw [compactMembers, compactMembers, Text.join_cons_cons, ← compactMembers, starts,
              List.append_assoc, List.append_assoc]
            rfl
          rw [isWritten] at enough ⊢
          simp only [List.length_append, List.length_cons] at enough
          have enoughLeft :
              (Text.join "," (compactMembers false ((otherName, other) :: others))).length <
                fuel := by
            rw [starts, List.length_cons]
            omega
          have differLeft :
              ((done ++ [(Key.text name, node.toValue)]).map (·.1) ++
                ((otherName, other) :: others).map (Key.text ·.1)).Nodup := by
            rw [List.map_append, List.append_assoc]
            exact differ
          have ofOthers := inductionHypothesis (List.cons_ne_nil _ _) plain.2 areReadBack
            differLeft enoughLeft shallow.2
          rw [starts, List.cons_append] at ofOthers
          rw [List.append_assoc, List.cons_append, List.append_assoc, List.cons_append,
            List.cons_append,
            readMembers_next done name (skipBlanks_compact plain.1 _)
              (isReadBack _ (by omega) shallow.1) (by decide),
            Entries.set_of_absent isNew, ofOthers, List.append_assoc]
          rfl

theorem isReadBack_null :
    IsReadBack .null := by
  intro fuel room rest enough _
  obtain ⟨fuel, rfl⟩ := Nat.exists_eq_add_of_le' (Nat.one_le_of_lt enough)
  rw [compact]
  refine readValue_word (rfl : Text.ofString "null" ++ rest = _) (by decide) ?_
  rw [words, List.findSome?_cons]
  dsimp only
  rw [Text.dropStart?_append]
  rfl

theorem isReadBack_bool
    (b : Bool) :
    IsReadBack (.bool b) := by
  intro fuel room rest enough _
  cases b with
  | true =>
      obtain ⟨fuel, rfl⟩ := Nat.exists_eq_add_of_le' (Nat.one_le_of_lt enough)
      rw [compact, if_pos rfl]
      refine readValue_word (rfl : Text.ofString "true" ++ rest = _) (by decide) ?_
      have noNull : Text.dropStart? ("true" ++ rest) "null" = none := by
        rfl
      rw [words, List.findSome?_cons, List.findSome?_cons]
      dsimp only
      rw [noNull, Text.dropStart?_append]
      rfl
  | false =>
      obtain ⟨fuel, rfl⟩ := Nat.exists_eq_add_of_le' (Nat.one_le_of_lt enough)
      rw [compact, if_neg Bool.false_ne_true]
      refine readValue_word (rfl : Text.ofString "false" ++ rest = _) (by decide) ?_
      have noNull : Text.dropStart? ("false" ++ rest) "null" = none := by
        rfl
      have noTrue : Text.dropStart? ("false" ++ rest) "true" = none := by
        rfl
      rw [words, List.findSome?_cons, List.findSome?_cons, List.findSome?_cons]
      dsimp only
      rw [noNull, noTrue, Text.dropStart?_append]
      rfl

theorem isReadBack_text
    (t : Text) :
    IsReadBack (.text t) := by
  intro fuel room rest enough _
  obtain ⟨fuel, rfl⟩ := Nat.exists_eq_add_of_le' (Nat.one_le_of_lt enough)
  rw [compact, quote_append, readValue, if_pos rfl, readText_quote]
  rfl

/-- An array is read back if the documents in it are. -/
theorem isReadBack_array
    {nodes : List Node}
    (plain : allPlain nodes = true)
    (each : ∀ node ∈ nodes, node.IsReadBack) :
    IsReadBack (.array nodes) := by
  intro fuel room rest enough shallow
  obtain ⟨fuel, rfl⟩ := Nat.exists_eq_add_of_le' (Nat.one_le_of_lt enough)
  rw [compact] at enough ⊢
  rw [depth] at shallow
  have isWritten :
      Text.ofString "[" ++ Text.join "," (compactAll false nodes) ++ "]" ++ rest =
        ('[' : CodePoint) :: (Text.join "," (compactAll false nodes) ++
          (']' : CodePoint) :: rest) := by
    rw [List.append_assoc, List.append_assoc]
    rfl
  rw [isWritten, readValue, if_neg (by decide), if_neg (by simp; omega), if_neg (by decide),
    if_pos rfl]
  cases nodes with
  | nil =>
      rfl
  | cons node nodes =>
      obtain ⟨c, t, starts, noBlank, noEnd⟩ :=
        exists_compactAll_eq_cons (List.cons_ne_nil node nodes) plain
      have enoughInside :
          (Text.join "," (compactAll false (node :: nodes))).length < fuel := by
        have length := congrArg List.length isWritten
        simp only [List.length_append, List.length_cons] at length enough
        omega
      have isRead := readElements_compactAll (List.cons_ne_nil node nodes) plain each [] rest
        enoughInside (by omega : _ ≤ room - 1)
      rw [starts, List.cons_append] at isRead ⊢
      rw [skipBlanks_cons _ noBlank]
      dsimp only
      rw [if_neg noEnd, isRead]
      rfl

/-- An object is read back if its names are different and its members are read back. -/
theorem isReadBack_object
    {members : List (Text × Node)}
    (different : (members.map (·.1)).Nodup)
    (plain : membersPlain members = true)
    (each : ∀ member ∈ members, member.2.IsReadBack) :
    IsReadBack (.object members) := by
  intro fuel room rest enough shallow
  obtain ⟨fuel, rfl⟩ := Nat.exists_eq_add_of_le' (Nat.one_le_of_lt enough)
  rw [compact] at enough ⊢
  rw [depth] at shallow
  have isWritten :
      Text.ofString "\x7b" ++ Text.join "," (compactMembers false members) ++ "\x7d" ++ rest =
        ('\x7b' : CodePoint) :: (Text.join "," (compactMembers false members) ++
          ('\x7d' : CodePoint) :: rest) := by
    rw [List.append_assoc, List.append_assoc]
    rfl
  rw [isWritten, readValue, if_neg (by decide), if_neg (by simp; omega), if_pos rfl]
  cases members with
  | nil =>
      rfl
  | cons member members =>
      have enoughInside :
          (Text.join "," (compactMembers false (member :: members))).length < fuel := by
        have length := congrArg List.length isWritten
        simp only [List.length_append, List.length_cons] at length enough
        omega
      have differ :
          (([] : Entries).map (·.1) ++ (member :: members).map (Key.text ·.1)).Nodup := by
        have names : (((member :: members).map (·.1)).map Key.text).Nodup :=
          List.Nodup.map (fun _ _ same => Key.text.inj same) different
        rwa [List.map_map] at names
      have isRead := readMembers_compactMembers (List.cons_ne_nil member members) plain each
        differ rest enoughInside (by omega : _ ≤ room - 1)
      obtain ⟨t, starts⟩ := exists_compactMembers_eq_cons (List.cons_ne_nil member members)
      rw [starts, List.cons_append] at isRead ⊢
      rw [skipBlanks_cons _ (by decide)]
      dsimp only
      rw [if_neg (by decide), isRead]
      rfl

/-- Every document without numbers and without a name twice is read back. -/
theorem isReadBack
    (node : Node)
    (plain : node.isPlain = true) :
    node.IsReadBack := by
  induction node using inductionOnMembers with
  | null =>
      exact isReadBack_null
  | bool b =>
      exact isReadBack_bool b
  | number digits =>
      cases plain
  | text t =>
      exact isReadBack_text t
  | array nodes inductionHypothesis =>
      exact isReadBack_array plain fun node isMember =>
        inductionHypothesis node isMember (isPlain_of_allPlain plain node isMember)
  | object members inductionHypothesis =>
      rw [isPlain, Bool.and_eq_true, decide_eq_true_eq] at plain
      exact isReadBack_object plain.1 plain.2 fun member isMember =>
        inductionHypothesis member isMember (isPlain_of_membersPlain plain.2 member isMember)

/-!
## Documents that can be encoded
-/

mutual

/-- All texts of a document, also the names and the digits. -/
def texts : Node → List Text
  | .number digits => [digits]
  | .text t => [t]
  | .array nodes => textsOfAll nodes
  | .object members => textsOfMembers members
  | _ => []

def textsOfAll : List Node → List Text
  | [] => []
  | node :: nodes => texts node ++ textsOfAll nodes

def textsOfMembers : List (Text × Node) → List Text
  | [] => []
  | (name, node) :: members => name :: texts node ++ textsOfMembers members

end

theorem isScalar_unicodeEscapeOf :
    ∀ n < 0x20, Text.isScalar (unicodeEscapeOf n) = true := by
  decide

/-- Quoting a code point puts no lone surrogate into a text and takes none out of it. -/
theorem isScalar_quoteOne
    (c : CodePoint) :
    Text.isScalar (quoteOne false c) = ! c.isSurrogate := by
  have ofSmall : c.val < 0x20 → c.isSurrogate = false := fun isSmall =>
    Bool.and_eq_false_iff.mpr (.inl (decide_eq_false (by omega)))
  fun_cases quoteOne false c with
  | case1 isSame | case2 _ isSame | case3 _ _ isSame | case4 _ _ _ isSame
  | case5 _ _ _ _ isSame =>
      subst isSame
      decide
  | case6 _ _ _ _ _ isBack =>
      rw [ofSmall (by omega)]
      decide
  | case7 _ _ _ _ _ _ isFeed =>
      rw [ofSmall (by omega)]
      decide
  | case8 _ _ _ _ _ _ _ isControl =>
      rw [ofSmall isControl]
      exact isScalar_unicodeEscapeOf c.val isControl
  | case9 =>
      exact Bool.and_true _
  | case10 _ _ _ _ _ _ _ _ isAscii | case11 _ _ _ _ _ _ _ _ isAscii =>
      exact absurd rfl isAscii

theorem isScalar_quote
    (t : Text) :
    Text.isScalar (quote false t) = Text.isScalar t := by
  have areQuoted : Text.isScalar (t.flatMap (quoteOne false)) = Text.isScalar t :=
    List.all_flatMap.trans (congrArg t.all (funext isScalar_quoteOne))
  have isQuote : Text.isScalar "\"" = true := by
    decide
  rw [quote, Text.isScalar_append, Text.isScalar_append, areQuoted, isQuote, Bool.true_and,
    Bool.and_true]

/-- Between brackets and commas stand the parts that are joined. -/
theorem isScalar_bracketed
    {start stop : Text}
    (isStart : Text.isScalar start = true)
    (isStop : Text.isScalar stop = true)
    (parts : List Text) :
    Text.isScalar (start ++ Text.join "," parts ++ stop) = parts.all Text.isScalar := by
  have areJoined : Text.isScalar (Text.join "," parts) = parts.all Text.isScalar := by
    rw [Bool.eq_iff_iff, List.all_eq_true]
    exact ⟨fun each part isPart => Text.all_of_mem_of_all_join each isPart,
      Text.isScalar_join (by decide)⟩
  rw [Text.isScalar_append, Text.isScalar_append, isStart, isStop, areJoined, Bool.true_and,
    Bool.and_true]

/-- A document can be encoded exactly if all its texts can. -/
theorem isScalar_compact
    (node : Node) :
    Text.isScalar (node.compact false) = node.texts.all Text.isScalar := by
  induction node using inductionOnMembers with
  | null =>
      rfl
  | bool b =>
      cases b <;> rfl
  | number digits =>
      exact (Bool.and_true _).symm
  | text t =>
      exact (isScalar_quote t).trans (Bool.and_true _).symm
  | array nodes inductionHypothesis =>
      rw [compact, texts, isScalar_bracketed (by decide) (by decide)]
      induction nodes with
      | nil =>
          rfl
      | cons node nodes ofOthers =>
          obtain ⟨ofFirst, each⟩ := List.forall_mem_cons.mp inductionHypothesis
          rw [compactAll, textsOfAll, List.all_cons, List.all_append, ofFirst, ofOthers each]
  | object members inductionHypothesis =>
      rw [compact, texts, isScalar_bracketed (by decide) (by decide)]
      induction members with
      | nil =>
          rfl
      | cons member members ofOthers =>
          obtain ⟨ofFirst, each⟩ := List.forall_mem_cons.mp inductionHypothesis
          obtain ⟨name, node⟩ := member
          have ofMember : Text.isScalar (quote false name ++ ":" ++ node.compact false) =
              (Text.isScalar name && node.texts.all Text.isScalar) := by
            have colon : Text.isScalar ":" = true := by
              decide
            rw [Text.isScalar_append, Text.isScalar_append, isScalar_quote, ofFirst, colon,
              Bool.and_true]
          rw [compactMembers, textsOfMembers, List.all_cons, List.cons_append, List.all_cons,
            List.all_append, ofMember, ofOthers each, Bool.and_assoc]

end Node

/-- A document that is written on one line is read back as it was. -/
theorem read_compact
    {node : Node}
    (plain : node.isPlain = true)
    (shallow : node.depth ≤ greatestDepth) :
    read (node.compact false) = .ok node.toValue := by
  have enough : (node.compact false).length ≤ 2 * (node.compact false).length + 2 := by
    omega
  have isReadBack := node.isReadBack plain [] enough shallow
  have noBlanks := Node.skipBlanks_compact plain []
  rw [List.append_nil] at isReadBack noBlanks
  obtain ⟨c, t, starts, -, -, noMark⟩ := Node.exists_compact_eq_cons node plain
  have noMarkAhead : Text.startsWith (node.compact false) [0xFEFF] = false := by
    rw [starts, Text.startsWith, Text.dropStart?_cons_ne noMark]
    rfl
  rw [read, noMarkAhead, if_neg Bool.false_ne_true, noBlanks, isReadBack]
  rfl

end Json

end ContractBindings
