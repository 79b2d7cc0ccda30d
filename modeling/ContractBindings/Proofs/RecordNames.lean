import ContractBindings.Proofs.AnnotationNames
import ContractBindings.Proofs.DocumentedTypes
import ContractBindings.Proofs.LegibleTypes
import ContractBindings.Proofs.ParameterKeys

namespace ContractBindings

/-!
# The names of records

Where the names of parameters are identifiers, or are missing, the type expressions of
parameters, of results and of events are legible.

Main statement: two such expressions have the same text exactly if they are the same, and in an
assembly of such parameters no two records have the same name, both as long as the digests of
the records are apart.
-/

namespace CodePoint

/-- No run of decimal digits reaches into the surrogates. -/
theorem isUnmarked_of_isDecimalDigit
    {c : CodePoint}
    (isDigit : c.isDecimalDigit = true) :
    c.isUnmarked = true := by
  refine isUnmarked_iff.mpr ⟨?_, ?_, ?_⟩
  · rintro rfl
    exact absurd isDigit (by decide)
  · rintro rfl
    exact absurd isDigit (by decide)
  · rw [isDecimalDigit, decimalDigit?, Option.isSome_map, List.find?_isSome] at isDigit
    obtain ⟨first, isZero, inRun⟩ := isDigit
    have everyZero : ∀ start ∈ decimalZeros, start + 10 ≤ 0xD800 ∨ 0xDFFF < start := by
      decide
    have apart := everyZero first isZero
    simp only [Bool.and_eq_true, decide_eq_true_eq] at inRun
    simp only [isSurrogate, Bool.and_eq_false_iff, decide_eq_false_iff_not]
    omega

end CodePoint

namespace Text

theorem all_isUnmarked_of_isDecimalDigit
    {digits : Text}
    (areDigits : ∀ c ∈ digits, c.isDecimalDigit = true) :
    digits.all CodePoint.isUnmarked = true :=
  List.all_eq_true.mpr fun c member => CodePoint.isUnmarked_of_isDecimalDigit (areDigits c member)

end Text

namespace Names

theorem all_isUnmarked_of_isSolidityIdentifier
    {name : Text}
    (isName : name = [] ∨ isSolidityIdentifier name = true) :
    name.all CodePoint.isUnmarked = true := by
  rcases isName with rfl | isIdentifier
  · rfl
  · refine List.all_eq_true.mpr fun c member => ?_
    by_cases isDollar : c = '$'
    · rw [isDollar]
      decide
    · have isWord := (isAsciiWord_of_isSolidityPart (isSolidityPart_of_mem isIdentifier c member)).1
      rw [if_neg isDollar] at isWord
      exact CodePoint.isUnmarked_of_isAsciiWord isWord

end Names

namespace Parameter

mutual

/-- Whether the names of a parameter and of its components are missing or identifiers. -/
def hasIdentifierNames : Parameter → Bool
  | ⟨name, _, none, _⟩ => name.isEmpty || Names.isSolidityIdentifier name
  | ⟨name, _, some components, _⟩ =>
      (name.isEmpty || Names.isSolidityIdentifier name) && allHaveIdentifierNames components

def allHaveIdentifierNames : List Parameter → Bool
  | [] => true
  | parameter :: rest => parameter.hasIdentifierNames && allHaveIdentifierNames rest

end

theorem allHaveIdentifierNames_iff
    {parameters : List Parameter} :
    allHaveIdentifierNames parameters = true ↔
      ∀ parameter ∈ parameters, parameter.hasIdentifierNames = true := by
  induction parameters with
  | nil =>
      simp [allHaveIdentifierNames]
  | cons parameter parameters inductionHypothesis =>
      rw [allHaveIdentifierNames, Bool.and_eq_true, inductionHypothesis, List.forall_mem_cons]

theorem name_of_hasIdentifierNames
    {parameter : Parameter}
    (haveNames : parameter.hasIdentifierNames = true) :
    parameter.name.all CodePoint.isUnmarked = true := by
  refine Names.all_isUnmarked_of_isSolidityIdentifier ?_
  rw [← List.isEmpty_iff, ← Bool.or_eq_true]
  obtain ⟨name, type, _ | components, internalType⟩ := parameter
  · rwa [hasIdentifierNames] at haveNames
  · rw [hasIdentifierNames, Bool.and_eq_true] at haveNames
    exact haveNames.1

theorem component_of_hasIdentifierNames
    {parameter : Parameter}
    (haveNames : parameter.hasIdentifierNames = true)
    {components : List Parameter}
    (hasComponents : parameter.components = some components) :
    ∀ component ∈ components, component.hasIdentifierNames = true := by
  obtain ⟨name, type, _, internalType⟩ := parameter
  cases hasComponents
  rw [hasIdentifierNames, Bool.and_eq_true, allHaveIdentifierNames_iff] at haveNames
  exact haveNames.2

theorem isUnmarked_of_mem_keys
    {parameters : List Parameter}
    (haveNames : ∀ parameter ∈ parameters, parameter.hasIdentifierNames = true) :
    ∀ key ∈ keys parameters, key.all CodePoint.isUnmarked = true := by
  intro key member
  rw [keys, (fillNames_perm _ _ _ _).mem_iff, List.mem_append, List.mem_map] at member
  rcases member with isName | ⟨n, -, rfl⟩
  · obtain ⟨parameter, isParameter, rfl⟩ := List.mem_map.mp (List.mem_of_mem_filter isName)
    exact name_of_hasIdentifierNames (haveNames parameter isParameter)
  · rw [standIn, List.all_append, Bool.and_eq_true]
    exact ⟨by decide, Text.all_isUnmarked_of_isDecimalDigit fun c isDigit =>
      (Text.isDigit_of_mem_ofNat isDigit).2⟩

end Parameter

namespace TypeExpression

theorem IsLegible.listed
    {element : TypeExpression}
    (legible : element.IsLegible)
    (count : Nat) :
    (listed element count).IsLegible := by
  induction count with
  | zero =>
      exact legible
  | succ count inductionHypothesis =>
      exact .list inductionHypothesis

theorem isLegible_integer
    (isUnsigned : Bool)
    (width : Nat) :
    (integer isUnsigned width).IsLegible := by
  rw [integer]
  split
  · exact .named (by decide) rfl
  · have areDigits : (Text.ofNat width).all CodePoint.isUnmarked = true :=
      Text.all_isUnmarked_of_isDecimalDigit fun c isDigit => (Text.isDigit_of_mem_ofNat isDigit).2
    refine .branded ?_ (by cases isUnsigned <;> rfl)
    rw [List.all_append, areDigits, Bool.and_true]
    cases isUnsigned <;> decide

theorem isLegible_of_standsFor
    {base : Text}
    {element : TypeExpression}
    (stands : StandsFor base (.plain element)) :
    element.IsLegible := by
  cases stands with
  | @fixedBytes digits _ areDigits =>
      refine .named ?_ rfl
      rw [List.all_append, Bool.and_eq_true]
      exact ⟨by decide, Text.all_isUnmarked_of_isDecimalDigit areDigits⟩
  | _ =>
      exact .named (by decide) rfl

/-- Fields with keys without marks and with legible types form a legible record. -/
theorem isLegible_zip
    {keys : List Text}
    {types : List TypeExpression}
    (areKeys : ∀ key ∈ keys, key.all CodePoint.isUnmarked = true)
    (areTypes : ∀ type ∈ types, type.IsLegible) :
    (TypeExpression.record (keys.zip types)).IsLegible :=
  .record (fun _ member => areKeys _ (List.of_mem_zip member).1)
    (fun _ member => areTypes _ (List.of_mem_zip member).2)

/-- A parameter with such names has a legible type. -/
theorem isLegible_of_ofParameter
    (parameter : Parameter)
    (haveNames : parameter.hasIdentifierNames = true)
    {place : Option Place}
    {marks : Entries}
    {type : TypeExpression}
    (mapped : ofParameter place marks parameter = .ok type) :
    type.IsLegible := by
  induction parameter using Parameter.inductionOnMembers generalizing marks type with
  | step parameter each =>
      obtain ⟨base, count, element, -, rfl, isBase⟩ := base_of_ofParameter mapped
      refine IsLegible.listed ?_ count
      rcases isBase with ⟨isUnsigned, digits, -, rfl⟩ | found | ⟨-, fields, ofFields, notEmpty, rfl⟩
      · exact isLegible_integer isUnsigned (widthOf digits)
      · exact isLegible_of_standsFor (standsFor_of_readBase found nofun)
      · obtain ⟨components, hasComponents, ofFields⟩ :=
          exists_members_of_ofComponents ofFields notEmpty
        have componentsHaveNames :=
          Parameter.component_of_hasIdentifierNames haveNames hasComponents
        rw [ofParameters_eq_mapM, map_eq_ok_iff] at ofFields
        obtain ⟨types, ofEach, rfl⟩ := ofFields
        refine isLegible_zip (Parameter.isUnmarked_of_mem_keys componentsHaveNames)
          (forall_mem_of_mapM ofEach fun component isComponent type ofComponent => ?_)
        exact each components hasComponents component isComponent
          (componentsHaveNames component isComponent) ofComponent

theorem isLegible_of_ofResults
    {results : List Parameter}
    (haveNames : ∀ result ∈ results, result.hasIdentifierNames = true)
    {place : Option Place}
    {type : TypeExpression}
    (mapped : ofResults place results = .ok type) :
    type.IsLegible := by
  rcases results with _ | ⟨first, _ | ⟨second, others⟩⟩
  · cases mapped
    exact .named (by decide) rfl
  · exact isLegible_of_ofParameter first (haveNames first List.mem_cons_self) mapped
  · obtain ⟨types, ofEach, rfl⟩ := record_of_ofResults mapped (by simp)
    refine isLegible_zip (fun key isKey => ?_) (forall_mem_of_mapM ofEach fun result isResult _ =>
      isLegible_of_ofParameter result (haveNames result isResult))
    obtain ⟨result, isResult, rfl⟩ := List.mem_map.mp isKey
    exact Parameter.name_of_hasIdentifierNames (haveNames result isResult)

theorem isLegible_of_nominalType
    {event : EventEntry}
    (haveNames : ∀ input ∈ event.inputs, input.toParameter.hasIdentifierNames = true)
    {contract className : Text}
    {type : EventType}
    (typed : event.nominalType contract className = .ok type) :
    (TypeExpression.record type.parameters).IsLegible := by
  simp only [EventEntry.nominalType, bind_eq_ok_iff, pure_eq_ok_iff] at typed
  obtain ⟨types, ofEach, hashed, -, rfl⟩ := typed
  refine isLegible_zip (Parameter.isUnmarked_of_mem_keys ?_)
    (forall_mem_of_mapM ofEach fun input isInput type mapped => ?_)
  · intro parameter isParameter
    obtain ⟨input, isInput, rfl⟩ := List.mem_map.mp isParameter
    exact haveNames input isInput
  · rw [EventEntry.parameterType] at mapped
    split at mapped
    case isTrue =>
      cases mapped
      exact .named (by decide) rfl
    case isFalse =>
      exact isLegible_of_ofParameter _ (haveNames input isInput) mapped

/-- A type expression comes from parameters whose names are missing or identifiers. -/
def ComesFromIdentifiers (type : TypeExpression) : Prop :=
  type.ComesFrom fun parameter => parameter.hasIdentifierNames = true

theorem ComesFromIdentifiers.isLegible
    {type : TypeExpression}
    (comes : type.ComesFromIdentifiers) :
    type.IsLegible := by
  cases comes with
  | parameter haveNames mapped =>
      exact isLegible_of_ofParameter _ haveNames mapped
  | results haveNames mapped =>
      exact isLegible_of_ofResults haveNames mapped
  | event haveNames typed =>
      exact isLegible_of_nominalType haveNames typed

theorem IsLegible.of_mentions
    {type : TypeExpression}
    (legible : type.IsLegible)
    {record : RecordFields}
    (mentions : type.Mentions record) :
    (TypeExpression.record record).IsLegible := by
  induction mentions with
  | itself =>
      exact legible
  | element _ inductionHypothesis =>
      cases legible with
      | list isElement => exact inductionHypothesis isElement
  | field member _ inductionHypothesis =>
      cases legible with
      | record _ areTypes => exact inductionHypothesis (areTypes _ member)

/-- What a mentioned record mentions is mentioned too. -/
theorem Mentions.trans
    {type : TypeExpression}
    {record inner : RecordFields}
    (mentions : type.Mentions record)
    (mentionsInner : (TypeExpression.record record).Mentions inner) :
    type.Mentions inner := by
  induction mentions with
  | itself =>
      exact mentionsInner
  | element _ inductionHypothesis =>
      exact .element inductionHypothesis
  | field member _ inductionHypothesis =>
      exact .field member inductionHypothesis

end TypeExpression

namespace Assembly

/-- All records have names, no two of them the same, and the definition of each record binds
its name. -/
structure DefinesRecordsOnce (assembly : Assembly) : Prop where
  nameable : ∀ record ∈ assembly.records, record.isNameable = true
  nodup : (assembly.records.map (·.name)).Nodup
  bound :
    (assembly.records.map Source.recordDefinition).map Source.head? =
      assembly.records.map fun record => some ⟨false, record.name⟩

theorem definesRecordsOnce_of_ofOutput
    {suffix : Text}
    {output : CompilerOutput}
    {assembly : Assembly}
    {logs : List LogRecord}
    (assembled : ofOutput suffix output = .ok (assembly, logs))
    (haveNames : ∀ parameter ∈ output.parameters, parameter.hasIdentifierNames = true)
    (apart : DigestsApart assembly.records) :
    assembly.DefinesRecordsOnce := by
  have lists := listsRecords_of_ofOutput assembled
  have legible : ∀ record ∈ assembly.records, (TypeExpression.record record).IsLegible := by
    intro record isListed
    obtain ⟨type, annotates, mentions⟩ := (lists.mentioned record).mp isListed
    have comes : type.ComesFromIdentifiers :=
      comesFrom_of_ofOutput assembled haveNames type annotates
    exact comes.isLegible.of_mentions mentions
  have innerListed :
      ∀ record ∈ assembly.records, ∀ inner ∈ (TypeExpression.record record).records,
        inner ∈ assembly.records := by
    intro record isListed inner isInner
    obtain ⟨type, annotates, mentions⟩ := (lists.mentioned record).mp isListed
    exact (lists.mentioned inner).mpr
      ⟨type, annotates, mentions.trans (TypeExpression.mem_records_iff.mp isInner)⟩
  refine
    { nameable := fun record isListed => (legible record isListed).isNameable
      nodup := lists.ordered.nodup.map_on fun first isFirst second isSecond sameName => ?_
      bound := ?_ }
  · exact TypeExpression.record.inj <| (legible first isFirst).eq_of_render apart
      (legible second isSecond) (innerListed first isFirst) (innerListed second isSecond) sameName
  · rw [List.map_map]
    exact List.map_congr_left fun record _ => Source.head?_recordDefinition record

/-- Type expressions of parameters with such names have the same text exactly if they are the
same, and an assembly of such parameters defines no record over another one, as long as the
digests of the records are apart. -/
theorem render_eq_iff_definesRecordsOnce :
    (∀ type : TypeExpression, type.ComesFromIdentifiers →
        ∀ record ∈ type.records, record.isNameable = true) ∧
      (∀ first second : TypeExpression, first.ComesFromIdentifiers → second.ComesFromIdentifiers →
        DigestsApart (first.records ++ second.records) →
          (first.render = second.render ↔ first = second)) ∧
        ∀ suffix output assembly logs, ofOutput suffix output = .ok (assembly, logs) →
          (∀ parameter ∈ output.parameters, parameter.hasIdentifierNames = true) →
            DigestsApart assembly.records → assembly.DefinesRecordsOnce := by
  refine ⟨fun type comes record isRecord => ?_, fun first second comesFirst comesSecond apart => ?_,
    fun suffix output assembly logs => definesRecordsOnce_of_ofOutput⟩
  · exact (comes.isLegible.of_mentions (TypeExpression.mem_records_iff.mp isRecord)).isNameable
  · refine ⟨fun same => ?_, fun same => by rw [same]⟩
    exact comesFirst.isLegible.eq_of_render apart comesSecond.isLegible
      (fun _ => List.mem_append_left _) (fun _ => List.mem_append_right _) same

/-- Two tuples whose components are called the same. -/
def narrowPair : Parameter :=
  ⟨"x", "tuple", some [⟨"a", "uint8", none, none⟩, ⟨"b", "string", none, none⟩], none⟩

def widePairs : Parameter :=
  ⟨"y", "tuple[]", some [⟨"a", "uint256", none, none⟩, ⟨"b", "string", none, none⟩], none⟩

/-- A function that takes both. -/
def pairsOutput : CompilerOutput :=
  ⟨[("s", [("A", [.function ⟨"f", [narrowPair, widePairs], [], false, false, none⟩])])]⟩

theorem render_eq_iff_definesRecordsOnce_pairs :
    ∃ first second,
      TypeExpression.ofParameter none [] narrowPair = .ok first ∧
        TypeExpression.ofParameter none [] widePairs = .ok second ∧
          (∀ record ∈ first.records, record.isNameable = true) ∧
            DigestsApart (first.records ++ second.records) ∧ first ≠ second ∧
              (first.render = second.render ↔ first = second) ∧
                ∃ assembly logs,
                  ofOutput "_" pairsOutput = .ok (assembly, logs) ∧
                    (∀ parameter ∈ pairsOutput.parameters,
                      parameter.hasIdentifierNames = true) ∧
                      assembly.records = first.records ++ second.records ∧
                        assembly.DefinesRecordsOnce := by
  obtain ⟨areNameable, sameText, definesOnce⟩ := render_eq_iff_definesRecordsOnce
  let first : TypeExpression := .record [("a", .named "int"), ("b", .named "str")]
  let second : TypeExpression := .list (.record [("a", .branded "UInt256"), ("b", .named "str")])
  have ofFirst : TypeExpression.ofParameter none [] narrowPair = .ok first :=
    eq_ok_of_toOption (by decide +kernel)
  have ofSecond : TypeExpression.ofParameter none [] widePairs = .ok second :=
    eq_ok_of_toOption (by decide +kernel)
  have comesFirst : first.ComesFromIdentifiers := .parameter (by decide) ofFirst
  have comesSecond : second.ComesFromIdentifiers := .parameter (by decide) ofSecond
  have apart : DigestsApart (first.records ++ second.records) :=
    digestsApart_of_nodup (by decide +kernel)
  have haveNames : ∀ parameter ∈ pairsOutput.parameters, parameter.hasIdentifierNames = true := by
    decide +kernel
  have areRecords :
      (ofOutput "_" pairsOutput).toOption.map (·.1.records) =
        some (first.records ++ second.records) := by
    decide +kernel
  cases assembled : ofOutput "_" pairsOutput with
  | error failure =>
      rw [assembled] at areRecords
      cases areRecords
  | ok made =>
      rw [assembled] at areRecords
      have isListed : made.1.records = first.records ++ second.records :=
        Option.some.inj areRecords
      exact ⟨first, second, ofFirst, ofSecond, areNameable first comesFirst, apart, nofun,
        sameText first second comesFirst comesSecond apart, made.1, made.2, rfl, haveNames,
        isListed, definesOnce "_" pairsOutput made.1 made.2 assembled haveNames (isListed ▸ apart)⟩

end Assembly

end ContractBindings
