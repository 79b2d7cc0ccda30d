import ContractBindings.Proofs.EncodingRoundTrip
import ContractBindings.Proofs.MatchingLayouts

namespace ContractBindings

/-!
# Elements that are given for components

A sequence that is given for a tuple is paired with the components of the tuple before it is
encoded, and what is left over of it is dropped.  The arity of a tuple is therefore checked in one
direction only.

Main statement: if values are encoded, then every sequence that is given for a tuple, at any depth,
has at least as many elements as the tuple has components, and without the elements behind them
the values have the same encoding.
-/

namespace Layout

/-- A value stands for a layout somewhere in the value of another layout. -/
inductive Occurs (inner : Layout) (u : Value) : Layout → Value → Prop where
  | here : Occurs inner u inner u
  | element {element : Layout} {v w : Value} {vs : List Value} :
      members? v = .ok vs → w ∈ vs → Occurs inner u element w →
        Occurs inner u (.list element) v
  | component {keys : Except Fault (List Value)} {members : List Layout} {member : Layout}
      {v w : Value} {vs : List Value} :
      Gives keys v vs → (member, w) ∈ members.zip vs → Occurs inner u member w →
        Occurs inner u (.record keys members) v

theorem isFlat_of_occurs
    {inner layout : Layout}
    {u v : Value}
    (occurs : Occurs inner u layout v)
    (flat : layout.isFlat = true) :
    inner.isFlat = true := by
  induction occurs with
  | here =>
      exact flat
  | element areMembers isElement occurs inductionHypothesis =>
      exact inductionHypothesis flat
  | component =>
      cases flat

end Layout

namespace Encoding

/-- Every element of an array that is encoded has an encoding. -/
theorem forall_mem_of_encode?_array
    {element : AbiType}
    {size : Option Nat}
    {vs : List Value}
    {data : Octets}
    (encoded : encode? (.array element size) (.list vs) = some data) :
    ∀ v ∈ vs, ∃ encoding, encode? element v = some encoding := by
  obtain ⟨_, parts, isSequence, elements, -⟩ := encode?_array_eq_some encoded
  cases isSequence
  clear encoded
  induction vs generalizing parts with
  | nil =>
      nofun
  | cons v vs inductionHypothesis =>
      rw [List.length_cons, List.replicate_succ] at elements
      obtain ⟨_, _, encoding, others, same, ofFirst, ofOthers, -⟩ :=
        encodeParts?_cons_eq_some elements
      cases same
      exact List.forall_mem_cons.mpr ⟨⟨encoding, ofFirst⟩, inductionHypothesis others ofOthers⟩

end Encoding

namespace Layout

open Encoding

/-- Each value that is given for a component is prepared and encoded under a type that matches,
and no component is left without one. -/
theorem components_of_encodeParts?
    {members : List Layout}
    {types : List AbiType}
    (matching : AllMatch members types)
    {vs prepared : List Value}
    (ofAll : prepareMembers members vs = .ok prepared)
    {parts : List Part}
    (encoded : encodeParts? types prepared = some parts) :
    members.length ≤ vs.length ∧
      ∀ pair ∈ members.zip vs, ∃ type own encoding,
        Matches pair.1 type ∧ pair.1.prepare pair.2 = .ok own ∧
          encode? type own = some encoding := by
  induction members generalizing types vs prepared parts with
  | nil =>
      exact ⟨Nat.zero_le _, nofun⟩
  | cons member members inductionHypothesis =>
      cases types with
      | nil =>
          cases matching
      | cons type types =>
          obtain ⟨firstMatches, othersMatch⟩ := matching
          obtain ⟨own, others, encoding, otherParts, rfl, ofFirst, ofOthers, -⟩ :=
            encodeParts?_cons_eq_some encoded
          cases vs with
          | nil =>
              cases ofAll
          | cons v vs =>
              obtain ⟨_, _, firstPrepared, othersPrepared, same⟩ :=
                prepareMembers_cons_eq_ok_iff.mp ofAll
              cases same
              obtain ⟨atLeast, each⟩ := inductionHypothesis othersMatch othersPrepared ofOthers
              refine ⟨Nat.succ_le_succ atLeast, List.forall_mem_cons.mpr ⟨?_, each⟩⟩
              exact ⟨type, own, encoding, firstMatches, firstPrepared, ofFirst⟩

/-- A sequence that is given for a tuple in a value that is encoded has an element for each
component. -/
theorem length_le_of_occurs
    {keys : Except Fault (List Value)}
    {members : List Layout}
    {layout : Layout}
    {u v : Value}
    (occurs : Occurs (.record keys members) u layout v)
    {type : AbiType}
    (matching : Matches layout type)
    {prepared : Value}
    (ofValue : layout.prepare v = .ok prepared)
    {data : Octets}
    (encoded : encode? type prepared = some data)
    {us : List Value}
    (gives : Gives keys u us) :
    members.length ≤ us.length := by
  induction occurs generalizing type prepared data with
  | here =>
      cases type with
      | tuple types =>
          obtain ⟨own, components, givesOwn, ofComponents, rfl⟩ :=
            prepare_record_eq_ok_iff.mp ofValue
          obtain ⟨_, parts, isSequence, encodedParts, -⟩ := encode?_tuple_eq_some encoded
          cases isSequence
          rw [gives_unique gives givesOwn]
          exact (components_of_encodeParts? matching ofComponents encodedParts).1
      | _ =>
          cases matching
  | element areMembers isElement occurs inductionHypothesis =>
      cases type with
      | array type size =>
          obtain ⟨own, elements, areOwn, ofElements, rfl⟩ := prepare_list_eq_ok_iff.mp ofValue
          rw [areMembers, Except.ok.injEq] at areOwn
          subst areOwn
          obtain ⟨first, isFirst, ofElement⟩ := exists_of_forall₂ ofElements.flip isElement
          obtain ⟨encoding, ofFirst⟩ := forall_mem_of_encode?_array encoded first isFirst
          exact inductionHypothesis matching ofElement ofFirst
      | _ =>
          exact absurd (isFlat_of_occurs occurs matching) (by simp [isFlat])
  | component givesMember isPair occurs inductionHypothesis =>
      cases type with
      | tuple types =>
          obtain ⟨own, components, givesOwn, ofComponents, rfl⟩ :=
            prepare_record_eq_ok_iff.mp ofValue
          obtain ⟨_, parts, isSequence, encodedParts, -⟩ := encode?_tuple_eq_some encoded
          cases isSequence
          rw [gives_unique givesMember givesOwn] at isPair
          obtain ⟨type, first, encoding, firstMatches, ofFirst, encodedFirst⟩ :=
            (components_of_encodeParts? matching ofComponents encodedParts).2 _ isPair
          exact inductionHypothesis firstMatches ofFirst encodedFirst
      | _ =>
          cases matching

/-!
## What is left of the values
-/

theorem prepareMembers_length
    {members : List Layout}
    {vs prepared : List Value}
    (ofAll : prepareMembers members vs = .ok prepared) :
    prepared.length = min members.length vs.length := by
  induction members generalizing vs prepared with
  | nil =>
      cases ofAll
      rw [List.length_nil, List.length_nil, Nat.zero_min]
  | cons member members inductionHypothesis =>
      cases vs with
      | nil =>
          cases ofAll
          rw [List.length_nil, Nat.min_zero]
      | cons v vs =>
          obtain ⟨first, others, -, ofOthers, rfl⟩ := prepareMembers_cons_eq_ok_iff.mp ofAll
          rw [List.length_cons, inductionHypothesis ofOthers, List.length_cons, List.length_cons,
            Nat.succ_min_succ]

theorem prepare_of_mem_zip
    {members : List Layout}
    {vs : List Value}
    (unchanged : prepareMembers members vs = .ok vs) :
    ∀ pair ∈ members.zip vs, pair.1.prepare pair.2 = .ok pair.2 := by
  induction members generalizing vs with
  | nil =>
      nofun
  | cons member members inductionHypothesis =>
      cases vs with
      | nil =>
          nofun
      | cons v vs =>
          obtain ⟨first, others, ofFirst, ofOthers, same⟩ :=
            prepareMembers_cons_eq_ok_iff.mp unchanged
          cases same
          exact List.forall_mem_cons.mpr ⟨ofFirst, inductionHypothesis ofOthers⟩

/-- What needs no preparation needs none in any place. -/
theorem prepare_of_occurs
    {inner layout : Layout}
    {u v : Value}
    (occurs : Occurs inner u layout v)
    (unchanged : layout.prepare v = .ok v) :
    inner.prepare u = .ok u := by
  induction occurs with
  | here =>
      exact unchanged
  | element areMembers isElement occurs inductionHypothesis =>
      obtain ⟨vs, elements, areOwn, ofElements, rfl⟩ := prepare_list_eq_ok_iff.mp unchanged
      cases areMembers
      cases areOwn
      exact inductionHypothesis (List.forall₂_same.mp ofElements _ isElement)
  | component gives isPair occurs inductionHypothesis =>
      obtain ⟨vs, components, givesOwn, ofComponents, rfl⟩ :=
        prepare_record_eq_ok_iff.mp unchanged
      cases gives_unique givesOwn (gives_tuple _ _)
      cases gives_unique gives givesOwn
      exact inductionHypothesis (prepare_of_mem_zip ofComponents _ isPair)

/-- A tuple that needs no preparation is a sequence without more elements than components. -/
theorem exists_tuple_of_prepare
    {keys : Except Fault (List Value)}
    {members : List Layout}
    {v : Value}
    (unchanged : (Layout.record keys members).prepare v = .ok v) :
    ∃ vs, v = .tuple vs ∧ vs.length ≤ members.length := by
  obtain ⟨vs, components, -, ofComponents, rfl⟩ := prepare_record_eq_ok_iff.mp unchanged
  refine ⟨components, rfl, ?_⟩
  rw [prepareMembers_length ofComponents]
  exact Nat.min_le_left _ _

end Layout

namespace Codec

/-- A sequence that is given for a tuple, in values that are encoded, has an element for each
component.  The elements behind them are dropped: there are values that give the same for all
components, with exactly as many elements in each tuple, and that have the same encoding. -/
theorem givesComponents_of_encodeParameters
    {descriptions : List Description}
    {values : List Value}
    {data : Octets}
    (areFormed : ∀ description ∈ descriptions, description.IsFormed)
    (encoded : encodeParameters descriptions values = .ok data) :
    (∀ pair ∈ (Layout.ofDescriptions descriptions).zip values, ∀ keys members u us,
        Layout.Occurs (.record keys members) u pair.1 pair.2 → Layout.Gives keys u us →
          members.length ≤ us.length) ∧
      ∃ kept, Layout.AllAlike (Layout.ofDescriptions descriptions) values kept ∧
        encodeParameters descriptions kept = .ok data ∧
          ∀ pair ∈ (Layout.ofDescriptions descriptions).zip kept, ∀ keys members u,
            Layout.Occurs (.record keys members) u pair.1 pair.2 →
              ∃ us, u = .tuple us ∧ us.length = members.length := by
  -- What holds of the values holds of the prepared values, which have the same encoding.
  have atLeast : ∀ supplied, encodeParameters descriptions supplied = .ok data →
      ∀ pair ∈ (Layout.ofDescriptions descriptions).zip supplied, ∀ keys members u us,
        Layout.Occurs (.record keys members) u pair.1 pair.2 → Layout.Gives keys u us →
          members.length ≤ us.length := by
    intro supplied encoded pair isPair keys members u us occurs gives
    obtain ⟨-, texts, prepared, types, hasTexts, ofValues, read, encoded⟩ :=
      encodeParameters_eq_ok_iff.mp encoded
    have matching := Layout.allMatch_of_ofText areFormed hasTexts read
    obtain ⟨_, parts, isSequence, ofParts, -⟩ := Encoding.encode?_tuple_eq_some encoded
    cases isSequence
    obtain ⟨type, own, encoding, isMatch, ofValue, isEncoding⟩ :=
      (Layout.components_of_encodeParts? matching ofValues ofParts).2 pair isPair
    exact Layout.length_le_of_occurs occurs isMatch ofValue isEncoding gives
  refine ⟨atLeast values encoded, ?_⟩
  obtain ⟨asMany, texts, prepared, types, hasTexts, ofValues, read, written⟩ :=
    encodeParameters_eq_ok_iff.mp encoded
  obtain ⟨alike, unchanged⟩ := Layout.prepareMembers_prepared ofValues
  have stillAsMany : descriptions.length = prepared.length := by
    rw [Layout.prepareMembers_length ofValues, Layout.length_ofDescriptions, ← asMany,
      Nat.min_self]
  have encodedToo : encodeParameters descriptions prepared = .ok data :=
    encodeParameters_eq_ok_iff.mpr
      ⟨stillAsMany, texts, prepared, types, hasTexts, unchanged, read, written⟩
  refine ⟨prepared, alike, encodedToo, fun pair isPair keys members u occurs => ?_⟩
  obtain ⟨us, rfl, atMost⟩ := Layout.exists_tuple_of_prepare
    (Layout.prepare_of_occurs occurs (Layout.prepare_of_mem_zip unchanged pair isPair))
  exact ⟨us, rfl, Nat.le_antisymm atMost
    (atLeast prepared encodedToo pair isPair keys members _ us occurs (Layout.gives_tuple keys us))⟩

/-- Tuples of one number, by themselves or in arrays. -/
def singleDescription (suffix : Text) : Description :=
  .mapping [(.text "name", .text "t"), (.text "type", .text ("tuple" ++ suffix))]
    (.listed [.mapping [(.text "name", .text "a"), (.text "type", .text "uint8")] .absent])

/-- Two tuples of one number: a sequence with an element left over, and a mapping. -/
def unevenValues : List Value :=
  [.list [.list [.int 1, .int 2], .dict [(.text "a", .int 3)]]]

theorem givesComponents_of_encodeParameters_uneven :
    encodeParameters [singleDescription "[]"] unevenValues =
        .ok (Encoding.word 32 ++ Encoding.word 2 ++ Encoding.word 1 ++ Encoding.word 3) ∧
      ∃ kept, Layout.AllAlike (Layout.ofDescriptions [singleDescription "[]"]) unevenValues kept ∧
        encodeParameters [singleDescription "[]"] kept =
          .ok (Encoding.word 32 ++ Encoding.word 2 ++ Encoding.word 1 ++ Encoding.word 3) := by
  have encoded : encodeParameters [singleDescription "[]"] unevenValues =
      .ok (Encoding.word 32 ++ Encoding.word 2 ++ Encoding.word 1 ++ Encoding.word 3) := by
    rfl
  have isText : (DeclaredType.scalar (.uint (some 8))).text = "uint8" := by
    decide +kernel
  have described : DeclaredType.Describe
      [("t", .array (.tuple [("a", .scalar (.uint (some 8)))]) none)] [singleDescription "[]"] :=
    ⟨rfl, rfl, ⟨rfl, by rw [isText]; rfl, trivial, trivial⟩, trivial⟩
  have areFormed := DeclaredType.isFormed_of_describe described (by rfl) (by decide)
  obtain ⟨-, kept, alike, keptEncoded, -⟩ := givesComponents_of_encodeParameters areFormed encoded
  exact ⟨encoded, kept, alike, keptEncoded⟩

/-- Two elements that are given for a tuple of one component are encoded as the first alone. -/
theorem encodeParameters_leftOver :
    (∃ keys members us,
      Layout.Occurs (.record keys members) (.list [.int 1, .int 2])
          (Layout.ofDescription (singleDescription [])) (.list [.int 1, .int 2]) ∧
        Layout.Gives keys (.list [.int 1, .int 2]) us ∧ us.length ≠ members.length) ∧
      encodeParameters [singleDescription []] [.list [.int 1, .int 2]] = .ok (Encoding.word 1) ∧
        encodeParameters [singleDescription []] [.list [.int 1]] = .ok (Encoding.word 1) := by
  have hasLayout : Layout.ofDescription (singleDescription []) =
      .record (.ok [.text "a"]) [.plain] := by
    rfl
  rw [hasLayout]
  exact ⟨⟨_, _, _, .here, .sequence nofun rfl, by decide⟩, rfl, rfl⟩

end Codec

end ContractBindings
