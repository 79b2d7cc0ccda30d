import ContractBindings.Proofs.Words

namespace ContractBindings

/-!
# Heads and tails read back

The parts of a tuple are read one after another from its head.  What the
invariant keeps is the place of the tails: dropping the offset that the next
dynamic part will write leaves exactly the tails of the parts not yet read.
Arrays are read like tuples of as many equal members.
-/

namespace Encoding.Part

def tailLength (part : Part) : Nat :=
  if part.isDynamic then part.encoding.length else 0

theorem heads_cons
    (offset : Nat)
    (part : Part)
    (parts : List Part) :
    heads offset (part :: parts) =
      (if part.isDynamic then word offset else part.encoding) ++
        heads (offset + part.tailLength) parts := by
  rw [heads, tailLength]
  split <;> rfl

/-- Heads are as long as announced, whatever the offset. -/
@[simp]
theorem length_heads
    (offset : Nat)
    (parts : List Part) :
    (heads offset parts).length = headsLength parts := by
  induction parts generalizing offset with
  | nil =>
      rfl
  | cons part parts inductionHypothesis =>
      rw [heads_cons, List.length_append, inductionHypothesis, headsLength, headLength]
      split <;> simp

theorem length_tails_cons
    (part : Part)
    (parts : List Part) :
    (tails (part :: parts)).length = part.tailLength + (tails parts).length := by
  rw [tails, tailLength, List.length_append]
  split <;> rfl

theorem length_assemble
    (parts : List Part) :
    (assemble parts).length = headsLength parts + (tails parts).length := by
  simp [assemble]

/-- A part is no longer than the tuple that it is a part of. -/
theorem length_encoding_le
    {part : Part}
    {parts : List Part}
    (member : part ∈ parts) :
    part.encoding.length ≤ (assemble parts).length := by
  induction parts with
  | nil =>
      cases member
  | cons first parts inductionHypothesis =>
      have split : (assemble (first :: parts)).length =
          first.headLength + first.tailLength + (assemble parts).length := by
        rw [length_assemble, length_assemble, headsLength, length_tails_cons]
        omega
      rcases List.mem_cons.mp member with isFirst | inRest
      · subst isFirst
        rw [split, headLength, tailLength]
        by_cases dynamic : part.isDynamic
        · simp [dynamic]
          omega
        · simp [dynamic]
      · have bounded := inductionHypothesis inRest
        omega

end Encoding.Part

namespace Decoding

open Encoding

/-- Behind the heads stand the tails. -/
theorem drop_assemble
    (parts : List Part)
    (trailing : Octets) :
    (Part.assemble parts ++ trailing).drop (Part.headsLength parts) =
      Part.tails parts ++ trailing := by
  rw [Part.assemble, List.append_assoc, List.drop_append]
  simp

/-- Where the tails of some parts begin, those of all but the first begin behind
the tail of the first. -/
theorem drop_tails_cons
    {start trailing : Octets}
    {offset : Nat}
    {part : Part}
    {parts : List Part}
    (located : start.drop offset = Part.tails (part :: parts) ++ trailing) :
    start.drop (offset + part.tailLength) = Part.tails parts ++ trailing := by
  rw [← List.drop_drop, located, Part.tails, Part.tailLength]
  split <;> simp

/--
Decoding finds a value in front of whatever follows the encoding of a part.
What it leaves is what followed, unless the part is dynamic.
-/
def ReadsBack
    (decode : Octets → Except Failure (Taken Value))
    (part : Part)
    (v : Value) : Prop :=
  ∀ rest, ∃ left,
    decode (part.encoding ++ rest) = .ok (v, left) ∧
      (part.isDynamic = false → left = rest)

/-- A first part is read off the heads, and the heads of the others are left. -/
theorem part_heads
    {decode : Octets → Except Failure (Taken Value)}
    {start trailing : Octets}
    {offset : Nat}
    {first : Part}
    {parts : List Part}
    {v : Value}
    (readsBack : ReadsBack decode first v)
    (located : start.drop offset = Part.tails (first :: parts) ++ trailing)
    (fits : offset < twoTo 256)
    (rest : Octets) :
    part first.isDynamic start decode (Part.heads offset (first :: parts) ++ rest) =
      .ok (v, Part.heads (offset + first.tailLength) parts ++ rest) := by
  rw [Part.heads_cons, List.append_assoc]
  by_cases dynamic : first.isDynamic = true
  · obtain ⟨left, decoded, -⟩ := readsBack (Part.tails parts ++ trailing)
    rw [part, if_pos dynamic, if_pos dynamic, follow, takeWord_word fits]
    simp only [bind, Except.bind]
    rw [located, Part.tails, if_pos dynamic, List.append_assoc, decoded]
    rfl
  · have static : first.isDynamic = false := by
      simpa using dynamic
    obtain ⟨left, decoded, isRest⟩ :=
      readsBack (Part.heads (offset + first.tailLength) parts ++ rest)
    rw [part, if_neg dynamic, if_neg dynamic, decoded, isRest static]

/--
The parts of a tuple whose values are read back, with what the check of the head
asks of each of them.
-/
inductive PartsReadBack : List AbiType → List Part → List Value → Prop where
  | nil :
      PartsReadBack [] [] []
  | cons
      {type : AbiType}
      {part : Part}
      {v : Value}
      {types : List AbiType}
      {parts : List Part}
      {vs : List Value}
      (sameKind : part.isDynamic = type.isDynamic)
      (readsBack : ReadsBack (decode type) part v)
      (notEmpty : 0 < part.encoding.length)
      (inHead : 32 * headWords type ≤ part.headLength)
      (others : PartsReadBack types parts vs) :
      PartsReadBack (type :: types) (part :: parts) (v :: vs)

namespace PartsReadBack

/-- The words that the members count for are in the heads. -/
theorem headWordsOfAll_le
    {types : List AbiType}
    {parts : List Part}
    {vs : List Value}
    (readBack : PartsReadBack types parts vs) :
    32 * headWordsOfAll types ≤ Part.headsLength parts := by
  induction readBack with
  | nil =>
      exact Nat.le_refl 0
  | cons _ _ _ inHead _ inductionHypothesis =>
      rw [headWordsOfAll, Part.headsLength]
      omega

/-- Members without a dynamic one leave no tails. -/
theorem tails_eq_nil
    {types : List AbiType}
    {parts : List Part}
    {vs : List Value}
    (readBack : PartsReadBack types parts vs)
    (static : AbiType.anyDynamic types = false) :
    Part.tails parts = [] := by
  induction readBack with
  | nil =>
      rfl
  | cons sameKind _ _ _ _ inductionHypothesis =>
      simp only [AbiType.anyDynamic, Bool.or_eq_false_iff] at static
      rw [Part.tails, sameKind, static.1, inductionHypothesis static.2]
      rfl

/-- The members are read off the heads one after another. -/
theorem decodeMembers_heads
    {types : List AbiType}
    {parts : List Part}
    {vs : List Value}
    (readBack : PartsReadBack types parts vs)
    {start trailing : Octets}
    {offset : Nat}
    (located : start.drop offset = Part.tails parts ++ trailing)
    (fits : offset + (Part.tails parts).length < twoTo 256)
    (rest : Octets) :
    decodeMembers start types (Part.heads offset parts ++ rest) = .ok (vs, rest) := by
  -- Each step moves the offset past one tail, and `located` keeps the others behind it.
  induction readBack generalizing offset with
  | nil =>
      rfl
  | @cons type part v types parts vs sameKind readsBack _ _ _ inductionHypothesis =>
      have tailsLength := Part.length_tails_cons part parts
      have first := part_heads readsBack located (by omega) rest
      have others := inductionHypothesis (drop_tails_cons located) (by omega)
      rw [sameKind] at first
      simp only [decodeMembers, first, bind, Except.bind, others]
      rfl

/-- The check of the heads finds every offset behind the heads and in the data. -/
theorem walk_heads
    {types : List AbiType}
    {parts : List Part}
    {vs : List Value}
    (readBack : PartsReadBack types parts vs)
    {start trailing : Octets}
    {headLength offset : Nat}
    (behind : headLength ≤ offset)
    (located : start.drop offset = Part.tails parts ++ trailing)
    (fits : offset + (Part.tails parts).length < twoTo 256)
    (rest : Octets) :
    walk start headLength types (Part.heads offset parts ++ rest) = .ok () := by
  induction readBack generalizing offset with
  | nil =>
      rfl
  | @cons type part v types parts vs sameKind readsBack notEmpty _ _ inductionHypothesis =>
      have tailsLength := Part.length_tails_cons part parts
      have others := inductionHypothesis (by omega) (drop_tails_cons located) (by omega)
      rw [Part.heads_cons, List.append_assoc]
      by_cases dynamic : type.isDynamic = true
      · have inData : offset < start.length := by
          have remaining := congrArg List.length located
          rw [Part.tails, sameKind, if_pos dynamic] at remaining
          simp only [List.length_drop, List.length_append] at remaining
          omega
        -- Of a dynamic member only the offset is checked, a static one is decoded.
        rw [sameKind, if_pos dynamic, walk, if_pos dynamic, takeWord_word (by omega)]
        simp only [bind, Except.bind, checkOffset, behind, inData, and_self, ↓reduceIte]
        exact others
      · obtain ⟨left, decoded, isRest⟩ :=
          readsBack (Part.heads (offset + part.tailLength) parts ++ rest)
        have static : part.isDynamic = false := by
          simpa [sameKind] using dynamic
        rw [sameKind, if_neg dynamic, walk, if_neg dynamic, decoded, isRest static]
        exact others

end PartsReadBack

/-- The members of a tuple are read back from its parts. -/
theorem decode_tuple_assemble
    {types : List AbiType}
    {parts : List Part}
    {vs : List Value}
    (readBack : PartsReadBack types parts vs)
    (fits : (Part.assemble parts).length < twoTo 256)
    (rest : Octets) :
    decode (.tuple types) (Part.assemble parts ++ rest) =
      .ok (.tuple vs, Part.tails parts ++ rest) := by
  have located := drop_assemble parts rest
  rw [Part.length_assemble] at fits
  have walked := readBack.walk_heads readBack.headWordsOfAll_le located fits
    (Part.tails parts ++ rest)
  have members := readBack.decodeMembers_heads located fits (Part.tails parts ++ rest)
  rw [← List.append_assoc, ← Part.assemble] at walked members
  rw [decode]
  simp only [walked, members, bind, Except.bind]
  split <;> rfl

end Decoding

end ContractBindings
