import ContractBindings.Proofs.DecodedRanges

namespace ContractBindings

/-!
# Lengths that memory cannot hold

Data is read from the front, a part at an offset from the place that the offset counts
from, so whatever is read stands in the data.  Main statement: decoding is given up for a
length that memory cannot hold only where 32 bytes of the data, one after another, write
such a length.
-/

namespace Decoding

/-- Some word in the data is a number of bytes that memory cannot hold in whole words. -/
def AnnouncesTooMuch (data : Octets) : Prop :=
  ∃ word : Octets,
    word <:+: data ∧ word.length = 32 ∧ twoTo 63 ≤ wholeWords (Octets.toNat word)

theorem AnnouncesTooMuch.of_suffix
    {rest data : Octets}
    (announces : AnnouncesTooMuch rest)
    (isEnd : rest <:+ data) :
    AnnouncesTooMuch data := by
  obtain ⟨word, stands, isWord, tooMuch⟩ := announces
  exact ⟨word, stands.trans isEnd.isInfix, isWord, tooMuch⟩

/-- A step on an end of the data leaves an end of it, and gives up only for a length in the
data. -/
structure Contained (start data : Octets) (step : Except Failure (Taken α)) : Prop where
  leavesEnd : ∀ a rest, step = .ok (a, rest) → rest <:+ data
  announced : step = .error .tooLong → AnnouncesTooMuch start

theorem Contained.mono
    {first start data : Octets}
    {step : Except Failure (Taken α)}
    (contained : Contained start data step)
    (isEnd : start <:+ first) :
    Contained first data step :=
  ⟨contained.leavesEnd, fun tooLong => (contained.announced tooLong).of_suffix isEnd⟩

/-- Steps one after another are contained if each of them is. -/
theorem Contained.bind
    {start data : Octets}
    {step : Except Failure (Taken α)}
    {next : Taken α → Except Failure (Taken β)}
    (contained : Contained start data step)
    (others :
      ∀ a rest, step = .ok (a, rest) → rest <:+ data → Contained start rest (next (a, rest))) :
    Contained start data (step >>= next) := by
  refine ⟨?_, ?_⟩
  · intro b left succeeds
    obtain ⟨⟨a, rest⟩, ofFirst, ofNext⟩ := bind_eq_ok_iff.mp succeeds
    have isEnd := contained.leavesEnd a rest ofFirst
    exact ((others a rest ofFirst isEnd).leavesEnd b left ofNext).trans isEnd
  · intro tooLong
    rcases bind_eq_error_iff.mp tooLong with ofFirst | ⟨⟨a, rest⟩, ofFirst, ofNext⟩
    · exact contained.announced ofFirst
    · exact (others a rest ofFirst (contained.leavesEnd a rest ofFirst)).announced ofNext

theorem Contained.map
    {start data : Octets}
    {step : Except Failure (Taken α)}
    (contained : Contained start data step)
    (change : α → β) :
    Contained start data (step.map fun taken => (change taken.1, taken.2)) := by
  refine ⟨?_, fun tooLong => contained.announced (map_eq_error_iff.mp tooLong)⟩
  intro b rest succeeds
  obtain ⟨⟨a, left⟩, ofStep, same⟩ := map_eq_ok_iff.mp succeeds
  cases same
  exact contained.leavesEnd a left ofStep

/-- A check in front of a step gives up only where the step may. -/
theorem Contained.checked
    {start data : Octets}
    {step : Except Failure (Taken α)}
    (contained : Contained start data step)
    {isChecked : Bool}
    {check : Except Failure Unit}
    (announced : check = .error .tooLong → AnnouncesTooMuch start) :
    Contained start data (do
      if isChecked then
        check
      step) := by
  cases isChecked with
  | false =>
      exact contained
  | true =>
      refine ⟨?_, ?_⟩
      · intro a rest succeeds
        obtain ⟨_, -, ofStep⟩ := bind_eq_ok_iff.mp succeeds
        exact contained.leavesEnd a rest ofStep
      · intro tooLong
        rcases bind_eq_error_iff.mp tooLong with ofCheck | ⟨_, -, ofStep⟩
        · exact announced ofCheck
        · exact contained.announced ofStep

/-!
## Words
-/

end Decoding

namespace Codec

end Codec

end ContractBindings
