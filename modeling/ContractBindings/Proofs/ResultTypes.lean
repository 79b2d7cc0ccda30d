import Mathlib.Data.List.Forall2
import ContractBindings.Proofs.ExpressionValues
import ContractBindings.Proofs.MethodCall

namespace ContractBindings

/-!
# Results inhabit the annotated type

A method is annotated with the type expression of its results.  Main statement: if the
answer to a call is decoded under the results, then the value that is made of them has
the annotated type, for every list of results that is given a type at all.
-/

namespace TypeExpression

/-- Several results have the type of a record with a field for each of them. -/
theorem record_of_ofResults
    {place : Option Place}
    {results : List Parameter}
    {expression : TypeExpression}
    (mapped : ofResults place results = .ok expression)
    (several : 2 ≤ results.length) :
    ∃ types,
      results.mapM (ofParameter place []) = .ok types ∧
        expression = .record ((results.map (·.name)).zip types) := by
  match results, mapped with
  | first :: second :: others, mapped =>
      rw [ofResults] at mapped
      · split at mapped
        · cases mapped
        · simp only [bind_eq_ok_iff, pure_eq_ok_iff] at mapped
          obtain ⟨types, ofEach, rfl⟩ := mapped
          exact ⟨types, ofEach, rfl⟩
      all_goals simp

/-- Results are accepted only if each of them is. -/
theorem exists_of_ofResults
    {place : Option Place}
    {results : List Parameter}
    {expression : TypeExpression}
    (mapped : ofResults place results = .ok expression) :
    ∀ result ∈ results, ∃ type, ofParameter place [] result = .ok type := by
  rcases results with _ | ⟨first, _ | ⟨second, others⟩⟩
  · exact fun result member => absurd member List.not_mem_nil
  · exact List.forall_mem_singleton.mpr ⟨expression, mapped⟩
  · obtain ⟨types, ofEach, -⟩ := record_of_ofResults mapped (by simp)
    exact fun result member => exists_of_mapM ofEach member

end TypeExpression

namespace Description

/-- The descriptions of parameters denote the expressions that these are mapped to. -/
theorem denotes_of_mapM_ofParameter
    {parameters : List Parameter}
    {place : Option Place}
    {expressions : List TypeExpression}
    (mapped : parameters.mapM (TypeExpression.ofParameter place []) = .ok expressions)
    (keysDistinct : ∀ parameter ∈ parameters, parameter.hasDistinctKeys = true) :
    List.Forall₂ Denotes (Parameter.descriptions parameters) expressions := by
  induction parameters generalizing expressions with
  | nil =>
      cases mapped
      exact .nil
  | cons parameter parameters inductionHypothesis =>
      simp only [List.mapM_cons, bind_eq_ok_iff, pure_eq_ok_iff] at mapped
      obtain ⟨expression, ofFirst, others, ofOthers, rfl⟩ := mapped
      rw [List.forall_mem_cons] at keysDistinct
      have denotes :=
        denotes_of_ofParameter ofFirst keysDistinct.1 (by rfl : componentsIn [] = .absent)
      rw [Parameter.describeWith_nil] at denotes
      exact .cons denotes (inductionHypothesis ofOthers keysDistinct.2)

end Description

namespace ReturnShape

/-- The value that is made of decoded results inhabits the type of the results. -/
theorem holds_shape_of_decodeParameters
    {place : Option Place}
    {results : List Parameter}
    {expression : TypeExpression}
    (mapped : TypeExpression.ofResults place results = .ok expression)
    (namesDistinct : (results.map (·.name)).Nodup)
    (keysDistinct : ∀ result ∈ results, result.hasDistinctKeys = true)
    {data : Octets}
    {values : List Value}
    (decoded : Codec.decodeParameters (Parameter.descriptions results) data = .ok values) :
    ∃ v,
      (ofCount results.length).shape (Parameter.descriptions results) values = .ok v ∧
        expression.holds v = true := by
  rcases results with _ | ⟨first, _ | ⟨second, others⟩⟩
  · cases mapped
    exact ⟨.null, rfl, rfl⟩
  · rw [TypeExpression.ofResults] at mapped
    have denote := Description.denotes_of_ofParameter mapped
      (keysDistinct first (by simp)) (by rfl : Description.componentsIn [] = .absent)
    rw [Parameter.describeWith_nil] at denote
    cases Codec.holds_of_decodeParameters (.cons denote .nil) decoded with
    | cons holds others =>
        exact ⟨_, rfl, holds⟩
  · have several : 2 ≤ (first :: second :: others).length := by
      simp
    have named := TypeExpression.named_of_ofResults mapped several
    obtain ⟨types, ofEach, rfl⟩ := TypeExpression.record_of_ofResults mapped several
    have asManyTypes := length_of_mapM ofEach
    have hold := Codec.holds_of_decodeParameters
      (Description.denotes_of_mapM_ofParameter ofEach keysDistinct) decoded
    have asMany : values.length = (first :: second :: others).length :=
      hold.length_eq.symm.trans asManyTypes
    refine ⟨_, Contract.shape_eq_returned (fun _ => named) namesDistinct asMany, ?_⟩
    have fields :
        TypeExpression.fieldsHold (((first :: second :: others).map (·.name)).zip types)
          ((((first :: second :: others).map (·.name)).map Key.text).zip values) = true :=
      TypeExpression.fieldsHold_zip (by rw [List.length_map, asManyTypes]) hold
    rw [List.map_map] at fields
    rcases values with _ | ⟨v, _ | ⟨w, values⟩⟩
    · cases asMany
    · cases asMany
    · exact fields

/-- Two results, one of them a list of tuples with an unnamed component. -/
def ownersResults : List Parameter :=
  [⟨"limit", "uint8", none, none⟩,
    ⟨"owners", "tuple[]",
      some [⟨"account", "address", none, none⟩, ⟨[], "int128", none, none⟩], none⟩]

/-- The encoding of a limit of 7 and of one owner with a negative balance. -/
def ownersData : Octets :=
  Encoding.word 7 ++ Encoding.word 64 ++ Encoding.word 1 ++ Encoding.word 1 ++
    Encoding.signedWord (-5)

/-- The type of the two results. -/
def ownersExpression : TypeExpression :=
  .record [("limit", .named "int"),
    ("owners", .list (.record [("account", .named "Address"),
      ("param1", .branded "Int128")]))]

theorem holds_shape_of_decodeParameters_owners :
    TypeExpression.ofResults none ownersResults = .ok ownersExpression ∧
      (ownersResults.map (·.name)).Nodup ∧
        (∀ result ∈ ownersResults, result.hasDistinctKeys = true) ∧
          ∃ values v,
            Codec.decodeParameters (Parameter.descriptions ownersResults) ownersData =
                .ok values ∧
              (ofCount ownersResults.length).shape (Parameter.descriptions ownersResults)
                  values = .ok v ∧
                ownersExpression.holds v = true := by
  have mapped : TypeExpression.ofResults none ownersResults = .ok ownersExpression :=
    eq_ok_of_toOption (by decide +kernel)
  have namesDistinct : (ownersResults.map (·.name)).Nodup := by
    decide +kernel
  have keysDistinct : ∀ result ∈ ownersResults, result.hasDistinctKeys = true := by
    decide +kernel
  have decodes :
      (Codec.decodeParameters (Parameter.descriptions ownersResults) ownersData).toBool = true := by
    decide +kernel
  cases decoded : Codec.decodeParameters (Parameter.descriptions ownersResults) ownersData with
  | error failure =>
      rw [decoded] at decodes
      cases decodes
  | ok values =>
      obtain ⟨v, shaped, holds⟩ :=
        holds_shape_of_decodeParameters mapped namesDistinct keysDistinct decoded
      exact ⟨mapped, namesDistinct, keysDistinct, values, v, rfl, shaped, holds⟩

end ReturnShape

end ContractBindings
