import Mathlib.Data.List.Nodup
import ContractBindings.Proofs.MethodCall
import ContractBindings.Proofs.RenamedTypes
import ContractBindings.Proofs.ExpressionValues
import ContractBindings.Proofs.SuppliedValues

namespace ContractBindings

/-!
# Values under the keys of parameters

A parameter without a name gets a stand-in as its key, which is numbered without a look at
the names that there are.

Main statement: where the names are different, each value has an entry of its own, wherever
values are stored under the keys of parameters, exactly if none of the names is a stand-in
that is given out.
-/

namespace Parameter

/-- Filled in names are the names that are there and the stand-ins for the others. -/
theorem fillNames_perm
    (make : Nat → α)
    (isNamed : α → Bool)
    (next : Nat)
    (names : List α) :
    (fillNames make isNamed next names).Perm
      (names.filter isNamed ++
        (List.range' next (names.countP (! isNamed ·))).map make) := by
  induction names generalizing next with
  | nil =>
      exact .nil
  | cons name names inductionHypothesis =>
      rw [fillNames]
      by_cases named : isNamed name = true
      · rw [if_pos named, List.filter_cons_of_pos named, List.countP_cons_of_neg (by simp [named])]
        exact (inductionHypothesis next).cons name
      · rw [if_neg named, List.filter_cons_of_neg named, List.countP_cons_of_pos (by simp [named]),
          List.range'_succ, List.map_cons]
        exact ((inductionHypothesis (next + 1)).cons _).trans List.perm_middle.symm

theorem standIn_injective :
    Function.Injective standIn :=
  fun _ _ same => Text.ofNat_injective (List.append_cancel_left same)

/-- None of the names is a stand-in for one of those that are missing. -/
def StandInsFree (names : List Text) : Prop :=
  ∀ n < names.count [], standIn (n + 1) ∉ names

instance (names : List Text) : Decidable (StandInsFree names) :=
  inferInstanceAs (Decidable (∀ n < names.count [], standIn (n + 1) ∉ names))

/-- Different names and stand-ins for the missing ones are different keys, if no name is one
of these stand-ins. -/
theorem nodup_fillNames_iff
    {names : List Text}
    (different : (names.filter (! ·.isEmpty)).Nodup) :
    (fillNames standIn (! ·.isEmpty) 1 names).Nodup ↔ StandInsFree names := by
  have standInsDiffer :
      ((List.range' 1 (names.countP (! ! ·.isEmpty))).map standIn).Nodup :=
    List.Nodup.map standIn_injective List.nodup_range'
  have missing : names.countP (! ! ·.isEmpty) = names.count [] := by
    rw [List.count]
    refine List.countP_congr fun name _ => ?_
    cases name <;> simp
  rw [(fillNames_perm standIn (! ·.isEmpty) 1 names).nodup_iff, List.nodup_append']
  constructor
  · rintro ⟨-, -, apart⟩ n isMissing isName
    refine apart (a := standIn (n + 1)) (List.mem_filter.mpr ⟨isName, by rfl⟩) ?_
    rw [missing]
    exact List.mem_map_of_mem (List.mem_range'_1.mpr ⟨by omega, by omega⟩)
  · intro free
    refine ⟨different, standInsDiffer, fun name isNamed isStandIn => ?_⟩
    obtain ⟨n, inRange, rfl⟩ := List.mem_map.mp isStandIn
    rw [missing, List.mem_range'_1] at inRange
    obtain ⟨m, rfl⟩ := Nat.exists_eq_add_of_le' inRange.1
    exact free m (by omega) (List.mem_of_mem_filter isNamed)

end Parameter

namespace Entries

theorem length_set_le
    (entries : Entries)
    (t : Text)
    (value : Value) :
    (entries.set (.text t) value).length ≤ entries.length + 1 := by
  induction entries with
  | nil =>
      exact Nat.le_refl _
  | cons entry others inductionHypothesis =>
      rw [set]
      split
      · exact Nat.le_succ _
      · exact Nat.succ_le_succ inductionHypothesis

/-- A value under a known key takes the place of another one. -/
theorem length_set_of_mem
    {entries : Entries}
    {t : Text}
    (known : Key.text t ∈ entries.map (·.1))
    (value : Value) :
    (entries.set (.text t) value).length = entries.length := by
  induction entries with
  | nil =>
      cases known
  | cons entry others inductionHypothesis =>
      obtain ⟨key, old⟩ := entry
      rw [set]
      split
      case isTrue =>
        rfl
      case isFalse differs =>
        rw [Key.same_text_iff] at differs
        rw [List.map_cons, List.mem_cons] at known
        rw [List.length_cons, List.length_cons,
          inductionHypothesis (known.resolve_left fun same => differs same.symm)]

theorem length_foldl_set_le
    (pairs : List (Text × Value))
    (stored : Entries) :
    (pairs.foldl (fun result pair => set result (.text pair.1) pair.2) stored).length ≤
      stored.length + pairs.length := by
  induction pairs generalizing stored with
  | nil =>
      exact Nat.le_refl _
  | cons pair pairs inductionHypothesis =>
      have first := length_set_le stored pair.1 pair.2
      have others := inductionHypothesis (stored.set (.text pair.1) pair.2)
      rw [List.foldl_cons, List.length_cons]
      omega

/-- As many entries as values are stored only under keys that are new and different. -/
theorem nodup_of_length_foldl_set
    {pairs : List (Text × Value)}
    {stored : Entries}
    (kept :
      (pairs.foldl (fun result pair => set result (.text pair.1) pair.2) stored).length =
        stored.length + pairs.length) :
    (pairs.map (·.1)).Nodup ∧ ∀ pair ∈ pairs, Key.text pair.1 ∉ stored.map (·.1) := by
  induction pairs generalizing stored with
  | nil =>
      exact ⟨.nil, nofun⟩
  | cons pair pairs inductionHypothesis =>
      obtain ⟨key, value⟩ := pair
      rw [List.foldl_cons, List.length_cons] at kept
      dsimp only at kept
      have isNew : Key.text key ∉ stored.map (·.1) := by
        intro known
        have others := length_foldl_set_le pairs (stored.set (.text key) value)
        rw [length_set_of_mem known] at others
        omega
      rw [set_of_absent isNew] at kept
      obtain ⟨different, absent⟩ :=
        inductionHypothesis (kept.trans (by rw [List.length_append, List.length_singleton]; omega))
      simp only [List.map_append, List.map_cons, List.map_nil, List.mem_append,
        List.mem_singleton, Key.text.injEq, not_or] at absent
      rw [List.map_cons, List.nodup_cons, List.forall_mem_cons]
      refine ⟨⟨fun isOther => ?_, different⟩, isNew, fun other isOther => (absent other isOther).1⟩
      obtain ⟨other, isMember, same⟩ := List.mem_map.mp isOther
      exact (absent other isMember).2 same

/-- Values that are stored under keys all have an entry exactly if the keys are different. -/
theorem length_ofList_iff
    {keys : List Text}
    {values : List Value}
    (asMany : values.length = keys.length) :
    (ofList ((keys.map Key.text).zip values)).length = keys.length ↔ keys.Nodup := by
  constructor
  · intro kept
    have pairs : (keys.map Key.text).zip values =
        (keys.zip values).map fun pair => (.text pair.1, pair.2) := by
      rw [List.zip_map_left]
      rfl
    rw [ofList, pairs, List.foldl_map] at kept
    have asManyPairs : keys.length = ([] : Entries).length + (keys.zip values).length := by
      simp [asMany]
    have different := (nodup_of_length_foldl_set (kept.trans asManyPairs)).1
    rwa [List.map_fst_zip (Nat.le_of_eq asMany.symm)] at different
  · intro different
    rw [ofList_zip different, List.length_zip, List.length_map, asMany, Nat.min_self]

/-- All values can be read back from some mapping exactly if the keys are different. -/
theorem exists_pick_iff
    {keys : List Text} :
    (∀ values : List Value, values.length = keys.length →
      ∃ entries, Layout.pick entries (keys.map .text) = .ok values) ↔ keys.Nodup := by
  constructor
  · intro readable
    -- Different values are not read under one key.
    let places := (List.range keys.length).map fun place : Nat => Value.int place
    obtain ⟨entries, picked⟩ := readable places (by simp [places])
    rw [Layout.pick, List.mapM_map, mapM_eq_ok_iff] at picked
    have read := List.forall₂_map_left_iff.mpr (List.forall₂_map_right_iff.mpr picked)
    rw [List.forall₂_eq_eq_eq] at read
    have different : (places.map (Except.ok (ε := Fault))).Nodup := by
      rw [List.map_map]
      refine List.nodup_range.map fun m n same => ?_
      exact Int.ofNat.inj (Value.int.inj (Except.ok.inj same))
    rw [← read] at different
    exact List.Nodup.of_map _ different
  · intro different values asMany
    refine ⟨(keys.map Key.text).zip values, ?_⟩
    rw [DeclaredType.pick_eq_valuesUnder, DeclaredType.valuesUnder_zip different asMany]
    intro key isKey
    rw [List.map_fst_zip (by simp [asMany])]
    exact List.mem_map_of_mem isKey

end Entries

namespace Layout

/-- The values of components are restored under their keys. -/
theorem exists_of_restoreMembers
    {keys : List Text}
    {members : List Layout}
    (asManyMembers : members.length = keys.length)
    {vs : List Value}
    (asMany : vs.length = keys.length)
    {entries : List (Key × Value)}
    (restored : restoreMembers (keys.map .text) members vs = .ok entries) :
    ∃ values : List Value,
      values.length = keys.length ∧ entries = (keys.map Key.text).zip values := by
  induction keys generalizing members vs entries with
  | nil =>
      rw [List.map_nil, restoreMembers] at restored
      · cases restored
        exact ⟨[], rfl, rfl⟩
      · simp
  | cons key keys inductionHypothesis =>
      obtain ⟨member, members, rfl⟩ := List.exists_cons_of_length_eq_add_one asManyMembers
      obtain ⟨v, vs, rfl⟩ := List.exists_cons_of_length_eq_add_one asMany
      simp only [List.map_cons, restoreMembers, Value.toKey?, bind_eq_ok_iff, pure_eq_ok_iff]
        at restored
      obtain ⟨value, -, others, ofOthers, rfl⟩ := restored
      obtain ⟨values, asManyValues, rfl⟩ := inductionHypothesis (Nat.succ.inj asManyMembers)
        (Nat.succ.inj asMany) ofOthers
      exact ⟨value :: values, by rw [List.length_cons, List.length_cons, asManyValues], rfl⟩

end Layout

namespace Codec

/-- As many values are decoded as are described. -/
theorem length_of_decodeParameters
    {descriptions : List Description}
    {data : Octets}
    {values : List Value}
    (decoded : decodeParameters descriptions data = .ok values) :
    values.length = descriptions.length := by
  obtain ⟨texts, types, vs, hasTexts, read, yielded, restored⟩ :=
    exists_of_decodeParameters decoded
  rw [length_of_mapM restored, List.length_zip, Layout.length_ofDescriptions,
    AbiType.length_of_allYield yielded, length_of_mapM read, length_of_mapM hasTexts,
    Nat.min_self]

end Codec

namespace EventDescription

/-- Values are merged under the keys, if there are enough of both sorts. -/
theorem exists_of_merge
    {flags : List Bool}
    {keys : List Text}
    (asManyKeys : keys.length = flags.length)
    {indexed others : List Value}
    (asManyIndexed : indexed.length = flags.count true)
    (asManyOthers : others.length = flags.count false)
    {entries : List (Key × Value)}
    (merged : merge flags (keys.map .text) indexed others = .ok entries) :
    ∃ values : List Value,
      values.length = keys.length ∧ entries = (keys.map Key.text).zip values := by
  -- The mark of a parameter says from which of the two queues its value is taken.
  induction flags generalizing keys indexed others entries with
  | nil =>
      rw [List.length_nil, List.length_eq_zero_iff] at asManyKeys
      subst asManyKeys
      cases merged
      exact ⟨[], rfl, rfl⟩
  | cons isIndexed flags inductionHypothesis =>
      obtain ⟨key, keys, rfl⟩ := List.exists_cons_of_length_eq_add_one asManyKeys
      cases isIndexed with
      | true =>
          rw [List.count_cons_self] at asManyIndexed
          rw [List.count_cons_of_ne (by decide)] at asManyOthers
          obtain ⟨v, indexed, rfl⟩ := List.exists_cons_of_length_eq_add_one asManyIndexed
          simp only [List.map_cons, merge, Value.toKey?, bind_eq_ok_iff, pure_eq_ok_iff] at merged
          obtain ⟨rest, ofRest, rfl⟩ := merged
          obtain ⟨values, asMany, rfl⟩ := inductionHypothesis (Nat.succ.inj asManyKeys)
            (Nat.succ.inj asManyIndexed) asManyOthers ofRest
          exact ⟨v :: values, by rw [List.length_cons, List.length_cons, asMany], rfl⟩
      | false =>
          rw [List.count_cons_of_ne (by decide)] at asManyIndexed
          rw [List.count_cons_self] at asManyOthers
          obtain ⟨v, others, rfl⟩ := List.exists_cons_of_length_eq_add_one asManyOthers
          simp only [List.map_cons, merge, Value.toKey?, bind_eq_ok_iff, pure_eq_ok_iff] at merged
          obtain ⟨rest, ofRest, rfl⟩ := merged
          obtain ⟨values, asMany, rfl⟩ := inductionHypothesis (Nat.succ.inj asManyKeys)
            asManyIndexed (Nat.succ.inj asManyOthers) ofRest
          exact ⟨v :: values, by rw [List.length_cons, List.length_cons, asMany], rfl⟩

/-- The values of an event are stored one after another under the keys of its parameters. -/
theorem exists_of_decodeParameters
    {event : EventDescription}
    {keys : List Text}
    (hasKeys :
      Description.keys (event.parameters.map Description.ofValue) = .ok (keys.map .text))
    (asManyKeys : keys.length = event.parameters.length)
    {topics : List Octets}
    {data : Octets}
    {entries : Entries}
    (decoded : event.decodeParameters topics data = .ok entries) :
    ∃ values : List Value,
      values.length = keys.length ∧
        entries = Entries.ofList ((keys.map Key.text).zip values) := by
  simp only [decodeParameters, bind_eq_ok_iff, mapError_eq_ok_iff, pure_eq_ok_iff, hasKeys]
    at decoded
  obtain ⟨parts, ofParts, indexed, ofTopics, others, ofData, _, same, merged, ofMerge, rfl⟩ :=
    decoded
  cases same
  have asManyParts := length_of_mapM ofParts
  rw [List.length_map] at asManyParts
  have asManyIndexed : indexed.length = (parts.map Option.isSome).count true := by
    rw [Codec.length_of_decodeParameters ofTopics, List.length_filterMap_eq_countP, List.count,
      List.countP_map]
    refine List.countP_congr fun part _ => ?_
    cases part <;> simp
  have asManyOthers : others.length = (parts.map Option.isSome).count false := by
    have asManyFlags : (parts.map Option.isSome).length ≤
        (event.parameters.map Description.ofValue).length := by
      rw [List.length_map, List.length_map, asManyParts]
    rw [Codec.length_of_decodeParameters ofData, List.length_filterMap_eq_countP, List.count]
    conv_rhs => rw [← List.map_snd_zip asManyFlags, List.countP_map]
    refine List.countP_congr fun pair _ => ?_
    cases isIndexed : pair.2 <;> simp [isIndexed]
  obtain ⟨values, asMany, rfl⟩ :=
    exists_of_merge (by simp [asManyKeys, asManyParts]) asManyIndexed asManyOthers ofMerge
  exact ⟨values, asMany, rfl⟩

end EventDescription

namespace Description

/-- Wherever values are stored under the keys of descriptions, each has an entry of its own
exactly under a condition. -/
structure StoresEach (descriptions : List Description) (condition : Prop) : Prop where
  keys :
    ∃ keys : List Text,
      Description.keys descriptions = .ok (keys.map .text) ∧
        keys.length = descriptions.length ∧ (keys.Nodup ↔ condition)
  event :
    ∀ {event : EventDescription} {topics : List Octets} {data : Octets} {entries : Entries},
      event.parameters.map ofValue = descriptions →
        event.decodeParameters topics data = .ok entries →
          (entries.length = descriptions.length ↔ condition)
  result :
    ∀ {values : List Value}, values.length = descriptions.length →
      ∃ entries,
        ReturnShape.record.shape descriptions values = .ok (.dict entries) ∧
          (entries.length = descriptions.length ↔ condition)
  restored :
    ∀ {values : List Value} {restored : Value}, values.length = descriptions.length →
      (Layout.ofComponents (.listed descriptions)).restore (.tuple values) = .ok restored →
        ∃ entries,
          restored = .dict entries ∧ (entries.length = descriptions.length ↔ condition)
  given :
    (∀ values : List Value, values.length = descriptions.length →
      ∃ entries,
        Layout.componentValues (Description.keys descriptions) (.dict entries) = .ok values) ↔
      condition

/-- Where the names of parameters are different, no value is lost exactly if no name is one
of the stand-ins. -/
theorem storesEach_of_names
    {descriptions : List Description}
    {names : List Text}
    (named : descriptions.mapM name = .ok (names.map .text))
    (different : (names.filter (! ·.isEmpty)).Nodup) :
    StoresEach descriptions (Parameter.StandInsFree names) := by
  have hasKeys := keys_of_names named
  have asMany :
      (Parameter.fillNames Parameter.standIn (! ·.isEmpty) 1 names).length =
        descriptions.length := by
    rw [Parameter.length_fillNames, ← List.length_map (f := Value.text), length_of_mapM named]
  have keysDiffer := Parameter.nodup_fillNames_iff different
  generalize Parameter.fillNames Parameter.standIn (! ·.isEmpty) 1 names = keys
    at hasKeys asMany keysDiffer
  have storedEach : ∀ {values : List Value}, values.length = keys.length →
      ((Entries.ofList ((keys.map Key.text).zip values)).length = descriptions.length ↔
        Parameter.StandInsFree names) := by
    intro values asManyValues
    rw [← asMany, Entries.length_ofList_iff asManyValues, keysDiffer]
  constructor
  case keys =>
    exact ⟨keys, hasKeys, asMany, keysDiffer⟩
  case event =>
    intro event topics data entries rfl decoded
    rw [List.length_map] at asMany
    obtain ⟨values, asManyValues, rfl⟩ :=
      EventDescription.exists_of_decodeParameters hasKeys asMany decoded
    exact storedEach asManyValues
  case result =>
    intro values asManyValues
    exact ⟨_, ReturnShape.shape_record hasKeys values, storedEach (asManyValues.trans asMany.symm)⟩
  case restored =>
    intro values restored asManyValues ofTuple
    rw [Layout.ofComponents, Layout.restore, hasKeys] at ofTuple
    simp only [bind_eq_ok_iff, Except.ok.injEq, exists_eq_left', Layout.members?,
      pure_eq_ok_iff] at ofTuple
    obtain ⟨entries, ofMembers, rfl⟩ := ofTuple
    obtain ⟨stored, asManyStored, rfl⟩ :=
      Layout.exists_of_restoreMembers ((Layout.length_ofDescriptions _).trans asMany.symm)
        (asManyValues.trans asMany.symm) ofMembers
    exact ⟨_, rfl, storedEach asManyStored⟩
  case given =>
    rw [hasKeys, ← asMany, ← keysDiffer]
    exact Entries.exists_pick_iff

/-- The description of a parameter that has a name and a plain type. -/
def plain (name type : Text) : Description :=
  .mapping [(.text "name", .text name), (.text "type", .text type)] .absent

theorem storesEach_of_names_mixed :
    (([plain [] "uint8", plain "to" "address", plain [] "bool"].mapM name =
          .ok ([([] : Text), "to", []].map .text)) ∧
        (([[], "to", []] : List Text).filter (! ·.isEmpty)).Nodup) ∧
      Parameter.StandInsFree [[], "to", []] ∧
        StoresEach [plain [] "uint8", plain "to" "address", plain [] "bool"]
          (Parameter.StandInsFree [[], "to", []]) :=
  have named : [plain [] "uint8", plain "to" "address", plain [] "bool"].mapM name =
      .ok ([([] : Text), "to", []].map .text) := by
    rfl
  have different : (([[], "to", []] : List Text).filter (! ·.isEmpty)).Nodup := by
    decide
  ⟨⟨named, different⟩, by decide, storesEach_of_names named different⟩

/-- A parameter without a name gets the name of another one as its key, and of two results
one is left. -/
theorem not_nodup_keys :
    ([plain "param1" "uint8", plain [] "uint8"].mapM name =
          .ok ([("param1" : Text), []].map .text)) ∧
      ((["param1", []] : List Text).filter (! ·.isEmpty)).Nodup ∧
        keys [plain "param1" "uint8", plain [] "uint8"] =
            .ok [.text "param1", .text "param1"] ∧
          ReturnShape.record.shape [plain "param1" "uint8", plain [] "uint8"]
              [.int 1, .int 2] =
            .ok (.dict [(.text "param1", .int 2)]) := by
  have named : [plain "param1" "uint8", plain [] "uint8"].mapM name =
      .ok ([("param1" : Text), []].map .text) := by
    rfl
  have same :
      Parameter.fillNames Parameter.standIn (! ·.isEmpty) 1 ["param1", []] =
        ["param1", "param1"] := by
    decide +kernel
  have hasKeys := keys_of_names named
  rw [same] at hasKeys
  exact ⟨named, by decide, hasKeys, ReturnShape.shape_record hasKeys _⟩

end Description

end ContractBindings
