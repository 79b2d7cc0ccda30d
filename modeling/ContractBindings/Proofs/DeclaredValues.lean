import ContractBindings.Proofs.DeclaredType
import ContractBindings.Proofs.Steps

namespace ContractBindings

/-!
# Values of declared types

A value that belongs to a declared type is brought into the form of the encoding,
has an encoding there and is brought back from the form in which it is decoded.
On the way back the entries of a mapping stand in the order of the components.
-/

namespace Key

/-- Only the text itself is the same key as a text. -/
theorem same_text_iff
    (key : Key)
    (t : Text) :
    key.same (.text t) = true ↔ key = .text t := by
  cases key <;> simp [same, toInt?]

end Key

namespace Entries

/-- There is a value under each text that is a key. -/
theorem get?_isSome
    {entries : Entries}
    {t : Text}
    (isKey : Key.text t ∈ entries.map (·.1)) :
    (entries.get? (.text t)).isSome = true := by
  induction entries with
  | nil =>
      cases isKey
  | cons entry others inductionHypothesis =>
      obtain ⟨key, value⟩ := entry
      rw [get?]
      split
      · rfl
      · rename_i differs
        rw [Key.same_text_iff] at differs
        rw [List.map_cons, List.mem_cons] at isKey
        exact inductionHypothesis (isKey.resolve_left fun same => differs same.symm)

/-- A value under a new text is stored behind the others. -/
theorem set_of_absent
    {entries : Entries}
    {t : Text}
    (absent : Key.text t ∉ entries.map (·.1))
    (value : Value) :
    entries.set (.text t) value = entries ++ [(.text t, value)] := by
  induction entries with
  | nil =>
      rfl
  | cons entry others inductionHypothesis =>
      obtain ⟨key, old⟩ := entry
      rw [List.map_cons, List.mem_cons, not_or] at absent
      have differs : ¬ key.same (.text t) = true := by
        rw [Key.same_text_iff]
        exact fun same => absent.1 same.symm
      rw [set, if_neg differs, inductionHypothesis absent.2, List.cons_append]

/-- Entries under distinct new texts are stored behind the others. -/
theorem foldl_set
    {keys : List Text}
    (distinct : keys.Nodup)
    (values : List Value)
    {stored : Entries}
    (absent : ∀ key ∈ keys, Key.text key ∉ stored.map (·.1)) :
    ((keys.map Key.text).zip values).foldl
        (fun result entry => Entries.set result entry.1 entry.2) stored =
      stored ++ (keys.map Key.text).zip values := by
  induction keys generalizing values stored with
  | nil =>
      simp
  | cons key keys inductionHypothesis =>
      cases values with
      | nil =>
          simp
      | cons value values =>
          rw [List.nodup_cons] at distinct
          have isNew := absent key (by simp)
          rw [List.map_cons, List.zip_cons_cons, List.foldl_cons, set_of_absent isNew,
            inductionHypothesis distinct.2, List.append_assoc]
          · rfl
          · intro other member
            rw [List.map_append, List.mem_append, not_or]
            refine ⟨absent other (List.mem_cons_of_mem key member), ?_⟩
            simp only [List.map_cons, List.map_nil, List.mem_singleton, Key.text.injEq]
            rintro rfl
            exact distinct.1 member

/-- Entries under distinct texts are a mapping. -/
theorem ofList_zip
    {keys : List Text}
    (distinct : keys.Nodup)
    (values : List Value) :
    ofList ((keys.map Key.text).zip values) = (keys.map Key.text).zip values := by
  rw [ofList, foldl_set distinct values (by simp), List.nil_append]

end Entries

namespace ScalarType

theorem isStandard_abiType
    {type : ScalarType}
    (valid : type.isValid = true) :
    type.abiType.isStandard = true := by
  have ofWidth :
      ∀ width : Option Nat, width.all AbiType.isWidth = true →
        1 ≤ width.getD 256 ∧ width.getD 256 ≤ 256 := by
    intro width isWidth
    cases width with
    | none =>
        exact ⟨by decide, by decide⟩
    | some bits =>
        simp only [Option.all_some, AbiType.isWidth, Bool.and_eq_true, decide_eq_true_eq]
          at isWidth
        rw [Option.getD_some]
        omega
  cases type with
  | uint width =>
      simpa [abiType, AbiType.isStandard] using ofWidth width valid
  | int width =>
      simpa [abiType, AbiType.isStandard] using ofWidth width valid
  | fixedBytes size =>
      simp only [isValid, Bool.and_eq_true, decide_eq_true_eq] at valid
      simp [abiType, AbiType.isStandard, valid.2]
  | _ =>
      rfl

/-- A value of a scalar type has an encoding. -/
theorem encode?_isSome
    {type : ScalarType}
    {v : Value}
    (holds : type.holds v = true) :
    (Encoding.encode? type.abiType v).isSome = true := by
  have ofInteger
      {isSigned : Bool}
      {bits : Nat}
      {i : Int}
      (inRange :
        (Encoding.integerRange isSigned bits).1 ≤ i ∧
          i ≤ (Encoding.integerRange isSigned bits).2) :
      (Encoding.integer? isSigned bits (.int i)).isSome = true := by
    simp [Encoding.integer?, inRange]
  -- A value of another kind than the type's does not hold.
  cases type with
  | uint | int =>
      cases v with
      | int i =>
          simp only [ScalarType.holds, Bool.and_eq_true, decide_eq_true_eq] at holds
          exact ofInteger ⟨holds.1, Int.le_sub_one_of_lt holds.2⟩
      | _ =>
          cases holds
  | address | fixedBytes =>
      cases v with
      | bytes bytes =>
          simp only [ScalarType.holds, decide_eq_true_eq] at holds
          simp [abiType, Encoding.encode?, Encoding.addressBytes?, holds]
      | _ =>
          cases holds
  | bool =>
      cases v with
      | bool =>
          rfl
      | _ =>
          cases holds
  | bytes =>
      cases v with
      | bytes =>
          rfl
      | _ =>
          cases holds
  | string =>
      cases v with
      | text =>
          rw [ScalarType.holds] at holds
          simp [abiType, Encoding.encode?, holds]
      | _ =>
          cases holds

/-- A value that is not an address is received as it was sent. -/
theorem received_eq
    {type : ScalarType}
    (other : type ≠ .address)
    {v : Value}
    (holds : type.holds v = true) :
    type.abiType.received v = v := by
  cases type with
  | address =>
      exact absurd rfl other
  | fixedBytes size =>
      cases v with
      | bytes bytes =>
          simp only [ScalarType.holds, decide_eq_true_eq] at holds
          simp [abiType, AbiType.received, holds]
      | _ =>
          cases holds
  | _ =>
      rw [abiType, AbiType.received]
      all_goals simp

/-- An address is twenty bytes. -/
theorem holds_address
    {v : Value}
    (holds : ScalarType.address.holds v = true) :
    ∃ bytes, v = .bytes bytes ∧ bytes.length = 20 := by
  cases v with
  | bytes bytes =>
      exact ⟨bytes, rfl, by simpa [ScalarType.holds] using holds⟩
  | _ =>
      cases holds

end ScalarType

namespace DeclaredType

/-- A value of a scalar type is restored from what is received. -/
theorem restore_scalar
    {type : ScalarType}
    {v : Value}
    (holds : type.holds v = true) :
    (scalar type).layout.restore (type.abiType.received v) = .ok v := by
  by_cases isAddress : type = .address
  · subst isAddress
    obtain ⟨bytes, rfl, twenty⟩ := ScalarType.holds_address holds
    have received : AbiType.address.received (.bytes bytes) =
        .text ("0x" ++ Octets.toHex bytes) := by
      rw [AbiType.received, Encoding.addressBytes?, if_pos twenty, Option.getD_some]
    have digits : (("0x" : Text) ++ Octets.toHex bytes).drop 2 = Octets.toHex bytes :=
      List.drop_left' (by rfl)
    rw [ScalarType.abiType, received, layout, if_pos rfl, Layout.restore,
      Layout.addressOfDigits, digits, Octets.ofSpacedHex?_toHex]
  · rw [ScalarType.received_eq isAddress holds, layout, if_neg isAddress, Layout.restore]

theorem length_of_allHold
    {declarations : Declarations}
    {vs : List Value}
    (hold : allHold declarations vs = true) :
    vs.length = declarations.length := by
  induction declarations generalizing vs with
  | nil =>
      cases vs with
      | nil =>
          rfl
      | cons v vs =>
          cases hold
  | cons declaration rest inductionHypothesis =>
      cases vs with
      | nil =>
          cases hold
      | cons v vs =>
          rw [allHold, Bool.and_eq_true] at hold
          rw [List.length_cons, List.length_cons, inductionHypothesis hold.2]

theorem length_allOrdered
    {declarations : Declarations}
    {vs : List Value}
    (hold : allHold declarations vs = true) :
    (allOrdered declarations vs).length = declarations.length := by
  induction declarations generalizing vs with
  | nil =>
      rfl
  | cons declaration rest inductionHypothesis =>
      cases vs with
      | nil =>
          cases hold
      | cons v vs =>
          rw [allHold, Bool.and_eq_true] at hold
          rw [allOrdered, List.length_cons, List.length_cons, inductionHypothesis hold.2]

/-- The values of an array are a list, as many as its size says. -/
theorem holds_array
    {element : DeclaredType}
    {size : Option Nat}
    {v : Value}
    (holds : (array element size).holds v = true) :
    ∃ vs,
      v = .list vs ∧ size.all (· = vs.length) = true ∧
        ∀ member ∈ vs, element.holds member = true := by
  cases v with
  | list vs =>
      rw [DeclaredType.holds, Bool.and_eq_true, List.all_eq_true] at holds
      exact ⟨vs, rfl, holds⟩
  | _ =>
      simp [DeclaredType.holds] at holds

/-- The value of a tuple is a mapping with a value for each key. -/
theorem holds_tuple
    {components : Declarations}
    {v : Value}
    (holds : (tuple components).holds v = true) :
    ∃ entries : Entries,
      v = .dict entries ∧
        (∀ key ∈ keys components, Key.text key ∈ entries.map (·.1)) ∧
          allHold components (valuesUnder (keys components) entries) = true := by
  cases v with
  | dict entries =>
      rw [DeclaredType.holds, Bool.and_eq_true, List.isPerm_iff] at holds
      refine ⟨entries, rfl, ?_, holds.2⟩
      intro key member
      exact holds.1.mem_iff.mpr (List.mem_map_of_mem (List.mem_eraseDups.mpr member))
  | _ =>
      simp [DeclaredType.holds] at holds

theorem allStandard_abiTypes
    {declarations : Declarations}
    (standard :
      ∀ declaration ∈ declarations, declaration.2.abiType.isStandard = true) :
    AbiType.allStandard (abiTypes declarations) = true := by
  induction declarations with
  | nil =>
      rfl
  | cons declaration rest inductionHypothesis =>
      rw [abiTypes, AbiType.allStandard, standard declaration (by simp),
        inductionHypothesis fun other member => standard other (List.mem_cons_of_mem _ member)]
      rfl

theorem isStandard_abiType
    (type : DeclaredType)
    (valid : type.isValid = true) :
    type.abiType.isStandard = true := by
  induction type using inductionOnComponents with
  | scalar type =>
      exact ScalarType.isStandard_abiType valid
  | array element size inductionHypothesis =>
      obtain ⟨elementValid, notEmpty⟩ := isValid_array_iff.mp valid
      rw [abiType, AbiType.isStandard, inductionHypothesis elementValid]
      simpa using notEmpty
  | tuple components inductionHypothesis =>
      obtain ⟨componentsValid, notEmpty⟩ := isValid_tuple_iff.mp valid
      have standard := allStandard_abiTypes fun component member =>
        inductionHypothesis component member (componentsValid component member)
      rw [abiType, AbiType.isStandard, standard]
      cases components with
      | nil =>
          exact absurd rfl notEmpty
      | cons component others =>
          rfl

/-- The values of a mapping under some of its keys are picked. -/
theorem pick_eq_valuesUnder
    {entries : Entries}
    {keys : List Text}
    (areKeys : ∀ key ∈ keys, Key.text key ∈ entries.map (·.1)) :
    Layout.pick entries (keys.map .text) = .ok (valuesUnder keys entries) := by
  rw [Layout.pick, List.mapM_map]
  refine mapM_eq_ok ?_
  intro key member
  obtain ⟨v, found⟩ := Option.isSome_iff_exists.mp (Entries.get?_isSome (areKeys key member))
  simp [Value.toKey?, found]

/-- The values of a type are brought into the form of the encoding. -/
def Prepares (type : DeclaredType) : Prop :=
  ∀ v, type.holds v = true → type.layout.prepare v = .ok (type.positional v)

/-- The values of components are prepared, if those of each are. -/
theorem prepareMembers_of_prepares
    {declarations : Declarations}
    (prepares : ∀ declaration ∈ declarations, Prepares declaration.2)
    {vs : List Value}
    (hold : allHold declarations vs = true) :
    Layout.prepareMembers (layouts declarations) vs =
      .ok (allPositional declarations vs) := by
  induction declarations generalizing vs with
  | nil =>
      rfl
  | cons declaration rest inductionHypothesis =>
      cases vs with
      | nil =>
          cases hold
      | cons v vs =>
          rw [allHold, Bool.and_eq_true] at hold
          have others := inductionHypothesis
            (fun other member => prepares other (List.mem_cons_of_mem _ member)) hold.2
          rw [layouts, Layout.prepareMembers, prepares declaration (by simp) v hold.1,
            others, allPositional]
          rfl

/-- The values of every type are prepared. -/
theorem prepares
    (type : DeclaredType) :
    Prepares type := by
  induction type using inductionOnComponents with
  | scalar type =>
      intro v _
      rw [layout]
      split <;> rfl
  | array element size inductionHypothesis =>
      intro v holds
      obtain ⟨vs, rfl, -, each⟩ := holds_array holds
      have elements := mapM_eq_ok fun member isMember =>
        inductionHypothesis member (each member isMember)
      rw [layout, positional, Layout.prepare, Layout.members?]
      simp only [bind, Except.bind, elements]
      rfl
  | tuple components inductionHypothesis =>
      intro v holds
      obtain ⟨entries, rfl, areKeys, hold⟩ := holds_tuple holds
      rw [layout, positional, Layout.prepare, Layout.componentValues]
      simp only [bind, Except.bind, pick_eq_valuesUnder areKeys,
        prepareMembers_of_prepares inductionHypothesis hold]
      rfl

/-- The encoding of the values of some declarations, as one tuple. -/
def encoding? (declarations : Declarations) (vs : List Value) : Option Octets :=
  Encoding.encode? (.tuple (abiTypes declarations)) (.tuple (allPositional declarations vs))

/-- The values of a type have encodings. -/
def Encodes (type : DeclaredType) : Prop :=
  ∀ v, type.holds v = true →
    (Encoding.encode? type.abiType (type.positional v)).isSome = true

/-- The values of components have encodings, if those of each have. -/
theorem encodeParts?_isSome
    {declarations : Declarations}
    (encodes : ∀ declaration ∈ declarations, Encodes declaration.2)
    {vs : List Value}
    (hold : allHold declarations vs = true) :
    (Encoding.encodeParts? (abiTypes declarations)
      (allPositional declarations vs)).isSome = true := by
  induction declarations generalizing vs with
  | nil =>
      rfl
  | cons declaration rest inductionHypothesis =>
      cases vs with
      | nil =>
          cases hold
      | cons v vs =>
          rw [allHold, Bool.and_eq_true] at hold
          obtain ⟨data, encoded⟩ := Option.isSome_iff_exists.mp
            (encodes declaration (by simp) v hold.1)
          obtain ⟨parts, ofOthers⟩ := Option.isSome_iff_exists.mp
            (inductionHypothesis
              (fun other member => encodes other (List.mem_cons_of_mem _ member)) hold.2)
          rw [abiTypes, allPositional, Encoding.encodeParts?, encoded, ofOthers]
          rfl

/-- The values of every type have encodings. -/
theorem encodes
    (type : DeclaredType) :
    Encodes type := by
  induction type using inductionOnComponents with
  | scalar type =>
      intro v holds
      rw [abiType, positional]
      · exact ScalarType.encode?_isSome holds
      all_goals simp
  | array element size inductionHypothesis =>
      intro v holds
      obtain ⟨vs, rfl, counted, each⟩ := holds_array holds
      have elements : ((vs.map element.positional).mapM fun v =>
          (Encoding.encode? element.abiType v).map
            (Encoding.Part.mk element.abiType.isDynamic)).isSome = true := by
        refine mapM_isSome ?_
        intro v member
        obtain ⟨original, isMember, rfl⟩ := List.mem_map.mp member
        rw [Option.isSome_map]
        exact inductionHypothesis original (each original isMember)
      obtain ⟨parts, encoded⟩ := Option.isSome_iff_exists.mp elements
      simp only [abiType, positional, Encoding.encode?, Encoding.sequence?,
        Option.bind_eq_bind, Option.bind_some, encoded]
      cases size with
      | none =>
          rfl
      | some n =>
          have asMany : n = vs.length := by
            simpa using counted
          simp [asMany]
  | tuple components inductionHypothesis =>
      intro v holds
      obtain ⟨entries, rfl, -, hold⟩ := holds_tuple holds
      obtain ⟨parts, encoded⟩ := Option.isSome_iff_exists.mp
        (encodeParts?_isSome inductionHypothesis hold)
      simp [abiType, positional, Encoding.encode?, Encoding.sequence?, encoded]

/-- The values of all declarations together have an encoding. -/
theorem encoding?_isSome
    {declarations : Declarations}
    {vs : List Value}
    (hold : allHold declarations vs = true) :
    (encoding? declarations vs).isSome = true := by
  obtain ⟨parts, encoded⟩ := Option.isSome_iff_exists.mp
    (encodeParts?_isSome (fun declaration _ => encodes declaration.2) hold)
  simp [encoding?, Encoding.encode?, Encoding.sequence?, encoded]

theorem exists_encoding?_of_lt
    {declarations : Declarations}
    {vs : List Value}
    (hold : allHold declarations vs = true)
    {bound : Nat}
    (isShort : ((encoding? declarations vs).getD []).length < bound) :
    ∃ data, encoding? declarations vs = some data ∧ data.length < bound := by
  obtain ⟨data, encoded⟩ := Option.isSome_iff_exists.mp (encoding?_isSome hold)
  rw [encoded] at isShort
  exact ⟨data, encoded, isShort⟩

/-- The values of a type are restored from what is received, with every mapping in
the order of the components. -/
def Restores (type : DeclaredType) : Prop :=
  ∀ v, type.holds v = true →
    type.layout.restore (type.abiType.received (type.positional v)) = .ok (type.ordered v)

/-- The values of components are restored under their keys, if those of each are. -/
theorem restoreMembers_of_restores
    {declarations : Declarations}
    (restores : ∀ declaration ∈ declarations, Restores declaration.2)
    {vs : List Value}
    (hold : allHold declarations vs = true)
    {keys : List Text}
    (asMany : keys.length = declarations.length) :
    Layout.restoreMembers (keys.map .text) (layouts declarations)
        (AbiType.receivedAll (abiTypes declarations) (allPositional declarations vs)) =
      .ok ((keys.map Key.text).zip (allOrdered declarations vs)) := by
  induction declarations generalizing vs keys with
  | nil =>
      rw [List.length_nil, List.length_eq_zero_iff] at asMany
      rw [asMany]
      rfl
  | cons declaration rest inductionHypothesis =>
      cases keys with
      | nil =>
          cases asMany
      | cons key keys =>
          cases vs with
          | nil =>
              cases hold
          | cons v vs =>
              rw [allHold, Bool.and_eq_true] at hold
              have others := inductionHypothesis
                (fun other member => restores other (List.mem_cons_of_mem _ member)) hold.2
                (Nat.succ.inj asMany)
              rw [layouts, abiTypes, allPositional, AbiType.receivedAll, allOrdered,
                List.map_cons, Layout.restoreMembers, restores declaration (by simp) v hold.1,
                others]
              rfl

/-- The values of every type are restored, if no two components share a key. -/
theorem restores
    (type : DeclaredType)
    (distinct : type.hasDistinctKeys = true) :
    Restores type := by
  induction type using inductionOnComponents with
  | scalar type =>
      intro v holds
      rw [abiType, positional, ordered]
      · exact restore_scalar holds
      all_goals simp
  | array element size inductionHypothesis =>
      intro v holds
      obtain ⟨vs, rfl, -, each⟩ := holds_array holds
      have elements :
          ((vs.map element.positional).map element.abiType.received).mapM
              element.layout.restore =
            .ok (vs.map element.ordered) := by
        rw [List.mapM_map, List.mapM_map]
        exact mapM_eq_ok fun member isMember =>
          inductionHypothesis distinct member (each member isMember)
      rw [layout, abiType, positional, ordered, AbiType.received, Encoding.sequence?,
        Option.getD_some, Layout.restore, Layout.members?]
      simp only [bind, Except.bind, elements]
      rfl
  | tuple components inductionHypothesis =>
      intro v holds
      obtain ⟨entries, rfl, -, hold⟩ := holds_tuple holds
      obtain ⟨componentsDistinct, keysDistinct⟩ := hasDistinctKeys_tuple_iff.mp distinct
      have members := restoreMembers_of_restores
        (fun component member =>
          inductionHypothesis component member (componentsDistinct component member))
        hold (length_keys components)
      rw [layout, abiType, positional, ordered, AbiType.received, Encoding.sequence?,
        Option.getD_some, Layout.restore, Layout.members?]
      simp only [bind, Except.bind, members]
      -- No component overwrites another one.
      rw [Entries.ofList_zip keysDistinct]
      rfl

theorem mapM_prepare
    {parameters : Declarations}
    {values : List Value}
    (hold : allHold parameters values = true)
    (report : Fault → ε) :
    (((layouts parameters).zip values).mapM fun (layout, v) =>
        (layout.prepare v).mapError report) =
      .ok (allPositional parameters values) := by
  induction parameters generalizing values with
  | nil =>
      rfl
  | cons parameter rest inductionHypothesis =>
      cases values with
      | nil =>
          cases hold
      | cons v values =>
          rw [allHold, Bool.and_eq_true] at hold
          rw [layouts, List.zip_cons_cons, List.mapM_cons, inductionHypothesis hold.2]
          simp only [prepares parameter.2 v hold.1]
          rfl

/-- Values on their way back are restored one after another. -/
theorem mapM_restore
    {parameters : Declarations}
    (distinct : allDistinctKeys parameters = true)
    {values : List Value}
    (hold : allHold parameters values = true)
    (report : Fault → ε) :
    (((layouts parameters).zip
          (AbiType.receivedAll (abiTypes parameters) (allPositional parameters values))).mapM
        fun (layout, v) => (layout.restore v).mapError report) =
      .ok (allOrdered parameters values) := by
  induction parameters generalizing values with
  | nil =>
      rfl
  | cons parameter rest inductionHypothesis =>
      cases values with
      | nil =>
          cases hold
      | cons v values =>
          rw [allHold, Bool.and_eq_true] at hold
          rw [allDistinctKeys, Bool.and_eq_true] at distinct
          rw [layouts, abiTypes, allPositional, AbiType.receivedAll, List.zip_cons_cons,
            List.mapM_cons, inductionHypothesis distinct.2 hold.2]
          simp only [restores parameter.2 distinct.1 v hold.1]
          rfl

end DeclaredType

end ContractBindings
