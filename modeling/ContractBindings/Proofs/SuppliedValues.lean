import ContractBindings.Codec.Parameters
import ContractBindings.Proofs.Steps

namespace ContractBindings

/-!
# Values that are supplied for parameters

Callers give a tuple as a mapping or as a sequence, and the encoding only sees the values of the
components.  Main statement: values that give the same values for all components, whatever else
they hold and in whichever form, are prepared alike for the encoding.
-/

namespace Description

/-- A property of all descriptions holds of a mapping if it holds of the descriptions of its
components, and of what is no mapping. -/
theorem inductionOnMembers
    {motive : Description → Prop}
    (mapping : ∀ entries components,
      (∀ members, components = .listed members → ∀ member ∈ members, motive member) →
        motive (.mapping entries components))
    (bare : ∀ type, motive (.bare type))
    (malformed : motive .malformed)
    (description : Description) :
    motive description := by
  cases description with
  | mapping entries components =>
      refine mapping entries components fun members isListed member isMember => ?_
      exact inductionOnMembers mapping bare malformed member
  | bare type =>
      exact bare type
  | malformed =>
      exact malformed
termination_by description
decreasing_by
  have smaller := List.sizeOf_lt_of_mem isMember
  simp only [isListed, Description.mapping.sizeOf_spec, Components.listed.sizeOf_spec]
  omega

theorem encodedTypes_eq_mapM
    (descriptions : List Description) :
    encodedTypes descriptions = descriptions.mapM encodedType := by
  induction descriptions with
  | nil =>
      rfl
  | cons description rest inductionHypothesis =>
      rw [encodedTypes, List.mapM_cons, inductionHypothesis]

end Description

namespace Layout

/-- A property of all layouts holds of an array if it holds of the elements, of a tuple if it
holds of the components, and of what is neither. -/
theorem inductionOnMembers
    {motive : Layout → Prop}
    (plain : motive .plain)
    (address : motive .address)
    (list : ∀ element, motive element → motive (.list element))
    (record : ∀ keys members, (∀ member ∈ members, motive member) →
      motive (.record keys members))
    (broken : ∀ fault, motive (.broken fault))
    (layout : Layout) :
    motive layout :=
  Layout.rec plain address list record broken
    (fun _ member => absurd member List.not_mem_nil)
    (fun _ _ first others _ member =>
      (List.mem_cons.mp member).elim (fun same => same ▸ first) (others _))
    layout

@[simp]
theorem length_ofDescriptions
    (descriptions : List Description) :
    (ofDescriptions descriptions).length = descriptions.length := by
  induction descriptions with
  | nil =>
      rfl
  | cons description descriptions inductionHypothesis =>
      rw [ofDescriptions, List.length_cons, List.length_cons, inductionHypothesis]

/-- The values that are given for the components of a tuple with such keys. -/
inductive Gives (keys : Except Fault (List Value)) : Value → List Value → Prop where
  /-- A mapping gives what it has under the keys. -/
  | mapping {entries : Entries} {names vs : List Value} :
      keys = .ok names →
        List.Forall₂ (fun name v => ∃ key, name.toKey? = some key ∧ entries.get? key = some v)
          names vs →
          Gives keys (.dict entries) vs
  /-- A sequence gives its elements in order. -/
  | sequence {v : Value} {vs : List Value} :
      (∀ entries, v ≠ .dict entries) → members? v = .ok vs → Gives keys v vs

theorem gives_tuple
    (keys : Except Fault (List Value))
    (vs : List Value) :
    Gives keys (.tuple vs) vs :=
  .sequence nofun rfl

theorem pick_eq_ok_iff
    {entries : Entries}
    {names vs : List Value} :
    pick entries names = .ok vs ↔
      List.Forall₂ (fun name v => ∃ key, name.toKey? = some key ∧ entries.get? key = some v)
        names vs := by
  rw [pick, mapM_eq_ok_iff]
  constructor
  · refine List.Forall₂.imp fun name v picked => ?_
    cases hasKey : name.toKey? with
    | none =>
        simp only [hasKey] at picked
        cases picked
    | some key =>
        cases found : entries.get? key with
        | none =>
            simp only [hasKey, found] at picked
            cases picked
        | some stored =>
            simp only [hasKey, found, Except.ok.injEq] at picked
            exact ⟨key, rfl, picked ▸ found⟩
  · refine List.Forall₂.imp ?_
    rintro name v ⟨key, hasKey, found⟩
    simp only [hasKey, found]

theorem componentValues_eq_ok_iff
    {keys : Except Fault (List Value)}
    {v : Value}
    {vs : List Value} :
    componentValues keys v = .ok vs ↔ Gives keys v vs := by
  cases v with
  | dict entries =>
      rw [componentValues, bind_eq_ok_iff]
      simp only [pick_eq_ok_iff]
      constructor
      · rintro ⟨names, hasKeys, picked⟩
        exact .mapping hasKeys picked
      · intro gives
        cases gives with
        | mapping hasKeys picked =>
            exact ⟨_, hasKeys, picked⟩
        | sequence noMapping =>
            exact absurd rfl (noMapping entries)
  | _ =>
      rw [componentValues]
      · constructor
        · exact fun areMembers => .sequence nofun areMembers
        · rintro (_ | ⟨-, areMembers⟩)
          exact areMembers
      · nofun

theorem gives_unique
    {keys : Except Fault (List Value)}
    {v : Value}
    {vs ws : List Value}
    (gives : Gives keys v vs)
    (givesToo : Gives keys v ws) :
    vs = ws := by
  rw [← componentValues_eq_ok_iff] at gives givesToo
  rw [gives, Except.ok.injEq] at givesToo
  exact givesToo

theorem prepare_list_eq_ok_iff
    {element : Layout}
    {v prepared : Value} :
    (Layout.list element).prepare v = .ok prepared ↔
      ∃ vs elements, members? v = .ok vs ∧
        List.Forall₂ (fun v own => element.prepare v = .ok own) vs elements ∧
          .list elements = prepared := by
  rw [prepare]
  simp only [bind_eq_ok_iff, pure_eq_ok_iff, mapM_eq_ok_iff, exists_and_left]

theorem prepare_record_eq_ok_iff
    {keys : Except Fault (List Value)}
    {members : List Layout}
    {v prepared : Value} :
    (Layout.record keys members).prepare v = .ok prepared ↔
      ∃ vs components, Gives keys v vs ∧ prepareMembers members vs = .ok components ∧
        .tuple components = prepared := by
  rw [prepare]
  simp only [bind_eq_ok_iff, pure_eq_ok_iff, componentValues_eq_ok_iff, exists_and_left]

mutual

/-- Two values give the same for everything that the layout tells apart: they are equal, or
they give elements or values of components that are alike. -/
def Alike : Layout → Value → Value → Prop
  | .list element, v, w =>
      v = w ∨
        ∃ vs ws, members? v = .ok vs ∧ members? w = .ok ws ∧ List.Forall₂ (Alike element) vs ws
  | .record keys members, v, w =>
      v = w ∨ ∃ vs ws, Gives keys v vs ∧ Gives keys w ws ∧ AllAlike members vs ws
  | .plain, v, w => v = w
  | .address, v, w => v = w
  | .broken _, v, w => v = w

/-- The values of components are alike one by one.  What stands behind them does not count. -/
def AllAlike : List Layout → List Value → List Value → Prop
  | member :: members, v :: vs, w :: ws => Alike member v w ∧ AllAlike members vs ws
  | _ :: _, [], [] => True
  | [], _, _ => True
  | _, _, _ => False

end

theorem prepareMembers_of_allAlike
    {members : List Layout}
    (each : ∀ member ∈ members, ∀ v w, member.Alike v w → member.prepare v = member.prepare w)
    {vs ws : List Value}
    (alike : AllAlike members vs ws) :
    prepareMembers members vs = prepareMembers members ws := by
  induction members generalizing vs ws with
  | nil =>
      simp only [prepareMembers]
  | cons member members inductionHypothesis =>
      rw [List.forall_mem_cons] at each
      cases vs with
      | nil =>
          cases ws with
          | nil =>
              rfl
          | cons w ws =>
              cases alike
      | cons v vs =>
          cases ws with
          | nil =>
              cases alike
          | cons w ws =>
              obtain ⟨first, others⟩ := alike
              rw [prepareMembers, prepareMembers, each.1 v w first,
                inductionHypothesis each.2 others]

/-- Values that are alike are prepared alike. -/
theorem prepare_of_alike
    (layout : Layout)
    {v w : Value}
    (alike : layout.Alike v w) :
    layout.prepare v = layout.prepare w := by
  induction layout using inductionOnMembers generalizing v w with
  | plain | address | broken =>
      cases alike
      rfl
  | list element inductionHypothesis =>
      rcases alike with rfl | ⟨vs, ws, ofFirst, ofSecond, each⟩
      · rfl
      · have same : vs.mapM (prepare element) = ws.mapM (prepare element) := by
          clear ofFirst ofSecond
          induction each with
          | nil =>
              rfl
          | cons first others ofOthers =>
              rw [List.mapM_cons, List.mapM_cons, inductionHypothesis first, ofOthers]
        rw [prepare, prepare, ofFirst, ofSecond]
        simp only [bind, Except.bind, same]
  | record keys members inductionHypothesis =>
      rcases alike with rfl | ⟨vs, ws, ofFirst, ofSecond, each⟩
      · rfl
      · rw [← componentValues_eq_ok_iff] at ofFirst ofSecond
        rw [prepare, prepare, ofFirst, ofSecond]
        simp only [bind, Except.bind,
          prepareMembers_of_allAlike
            (fun member isMember _ _ => inductionHypothesis member isMember) each]

theorem prepareMembers_eq_of_allAlike
    {layouts : List Layout}
    {vs ws : List Value}
    (alike : AllAlike layouts vs ws) :
    prepareMembers layouts vs = prepareMembers layouts ws :=
  prepareMembers_of_allAlike (fun member _ _ _ => prepare_of_alike member) alike

/-- Components are prepared one by one, as many as there are of both. -/
theorem prepareMembers_cons_eq_ok_iff
    {member : Layout}
    {members : List Layout}
    {v : Value}
    {vs prepared : List Value} :
    prepareMembers (member :: members) (v :: vs) = .ok prepared ↔
      ∃ first others, member.prepare v = .ok first ∧ prepareMembers members vs = .ok others ∧
        first :: others = prepared := by
  rw [prepareMembers]
  simp only [bind_eq_ok_iff, pure_eq_ok_iff, exists_and_left]

theorem allAlike_prepared
    {members : List Layout}
    (each : ∀ member ∈ members, ∀ v prepared, member.prepare v = .ok prepared →
      member.Alike v prepared)
    {vs prepared : List Value}
    (ofAll : prepareMembers members vs = .ok prepared) :
    AllAlike members vs prepared := by
  induction members generalizing vs prepared with
  | nil =>
      trivial
  | cons member members inductionHypothesis =>
      rw [List.forall_mem_cons] at each
      cases vs with
      | nil =>
          cases ofAll
          trivial
      | cons v vs =>
          obtain ⟨first, others, ofFirst, ofOthers, rfl⟩ := prepareMembers_cons_eq_ok_iff.mp ofAll
          exact ⟨each.1 v first ofFirst, inductionHypothesis each.2 ofOthers⟩

/-- A value is alike to what is prepared of it. -/
theorem alike_of_prepare
    (layout : Layout)
    {v prepared : Value}
    (ofValue : layout.prepare v = .ok prepared) :
    layout.Alike v prepared := by
  induction layout using inductionOnMembers generalizing v prepared with
  | plain | address =>
      cases ofValue
      rfl
  | broken =>
      cases ofValue
  | list element inductionHypothesis =>
      obtain ⟨vs, elements, areMembers, ofElements, rfl⟩ := prepare_list_eq_ok_iff.mp ofValue
      exact Or.inr ⟨vs, elements, areMembers, rfl, ofElements.imp fun _ _ => inductionHypothesis⟩
  | record keys members inductionHypothesis =>
      obtain ⟨vs, components, gives, ofComponents, rfl⟩ := prepare_record_eq_ok_iff.mp ofValue
      refine Or.inr ⟨vs, components, gives, gives_tuple _ _, ?_⟩
      exact allAlike_prepared
        (fun member isMember _ _ => inductionHypothesis member isMember) ofComponents

/-- What is prepared for the encoding is alike to what was supplied, and needs no more
preparation. -/
theorem prepareMembers_prepared
    {layouts : List Layout}
    {vs prepared : List Value}
    (ofAll : prepareMembers layouts vs = .ok prepared) :
    AllAlike layouts vs prepared ∧ prepareMembers layouts prepared = .ok prepared := by
  have alike := allAlike_prepared (fun member _ _ _ => alike_of_prepare member) ofAll
  exact ⟨alike, prepareMembers_eq_of_allAlike alike ▸ ofAll⟩

end Layout

namespace Codec

/-- Values are prepared under their layouts as the components of a tuple are. -/
theorem mapM_zip_prepare
    (layouts : List Layout)
    (values : List Value)
    (report : Fault → CodecFailure) :
    ((layouts.zip values).mapM fun (layout, v) => (layout.prepare v).mapError report) =
      (Layout.prepareMembers layouts values).mapError report := by
  induction layouts generalizing values with
  | nil =>
      simp [Layout.prepareMembers, pure, Except.pure, mapError_ok]
  | cons layout layouts inductionHypothesis =>
      cases values with
      | nil =>
          simp [Layout.prepareMembers, pure, Except.pure, mapError_ok]
      | cons v values =>
          rw [List.zip_cons_cons, List.mapM_cons, inductionHypothesis, Layout.prepareMembers]
          dsimp only
          cases layout.prepare v with
          | error fault =>
              rfl
          | ok prepared =>
              cases Layout.prepareMembers layouts values <;> rfl

/-- Values are encoded if there are as many as descriptions, all types are read and the
prepared values belong to them. -/
theorem encodeParameters_eq_ok_iff
    {descriptions : List Description}
    {values : List Value}
    {data : Octets} :
    encodeParameters descriptions values = .ok data ↔
      descriptions.length = values.length ∧
        ∃ texts prepared types,
          descriptions.mapM Description.ownType = .ok texts ∧
            Layout.prepareMembers (Layout.ofDescriptions descriptions) values = .ok prepared ∧
              texts.mapM AbiType.ofText = .ok types ∧
                Encoding.encode? (.tuple types) (.tuple prepared) = some data := by
  rw [encodeParameters]
  by_cases asMany : descriptions.length = values.length
  · rw [if_neg (not_not_intro asMany), and_iff_right asMany]
    cases hasTexts : descriptions.mapM Description.ownType with
    | error fault =>
        cases fault <;> simp
    | ok texts =>
        simp only [encodeAs, mapM_zip_prepare, readTypes, bind_eq_ok_iff, mapError_eq_ok_iff,
          Except.ok.injEq]
        constructor
        · rintro ⟨prepared, ofValues, types, ofTypes, written⟩
          cases encoded : Encoding.encode? (.tuple types) (.tuple prepared) with
          | none =>
              simp only [encoded] at written
              cases written
          | some own =>
              simp only [encoded] at written
              cases written
              exact ⟨texts, prepared, types, rfl, ofValues, ofTypes, encoded⟩
        · rintro ⟨_, prepared, types, rfl, ofValues, ofTypes, encoded⟩
          refine ⟨prepared, ofValues, types, ofTypes, ?_⟩
          simp only [encoded]
          rfl
  · rw [if_pos asMany]
    simp [asMany]

end Codec

end ContractBindings
