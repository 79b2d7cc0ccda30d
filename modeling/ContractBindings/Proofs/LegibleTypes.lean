import ContractBindings.Proofs.IdentifierNames
import ContractBindings.Proofs.ModuleNames
import ContractBindings.Proofs.RecordListing
import ContractBindings.Proofs.ResolvedPaths

namespace ContractBindings

/-!
# Type expressions that are known by their texts

The text of a record is its name, of which the digits are the digest of the keys and the texts
of the fields, in which inner records stand with their digests only.  A field ends with a comma
and a key with a colon, so that keys and texts without these marks are read back from what is
digested.

Main statement: two type expressions with such keys and names have the same text only if they
are the same, as long as no two of their records have the same digest without being built from
the same fields.
-/

namespace CodePoint

/-- A code point that is no mark between keys and fields, and that has an encoding. -/
def isUnmarked (c : CodePoint) : Bool :=
  c ≠ ':' && c ≠ ',' && ! c.isSurrogate

theorem isUnmarked_iff
    {c : CodePoint} :
    c.isUnmarked = true ↔ c ≠ ':' ∧ c ≠ ',' ∧ c.isSurrogate = false := by
  simp [isUnmarked, and_assoc]

theorem isUnmarked_of_isAsciiWord
    {c : CodePoint}
    (isWord : c.isAsciiWord = true) :
    c.isUnmarked = true := by
  refine isUnmarked_iff.mpr ⟨?_, ?_, ?_⟩
  · rintro rfl
    exact absurd isWord (by decide)
  · rintro rfl
    exact absurd isWord (by decide)
  · have isAscii := lt_of_isAsciiWord isWord
    simp only [isSurrogate, Bool.and_eq_false_iff, decide_eq_false_iff_not]
    omega

end CodePoint

namespace Octets

theorem toHex_injective
    {first second : Octets}
    (same : toHex first = toHex second) :
    first = second :=
  Option.some.inj (by rw [← ofHex?_toHex first, same, ofHex?_toHex])

end Octets

namespace Text

/-- Texts with an encoding have it for themselves. -/
theorem utf8_injective
    {first second : Text}
    (firstIsScalar : isScalar first = true)
    (secondIsScalar : isScalar second = true)
    (same : utf8 first = utf8 second) :
    first = second := by
  have decoded := ofUtf8?_utf8 firstIsScalar
  rw [same, ofUtf8?_utf8 secondIsScalar] at decoded
  exact (Option.some.inj decoded).symm

/-- Parts that are not empty and hold no separator are known by how they are joined. -/
theorem join_injective
    {separator : CodePoint}
    {first second : List Text}
    (ofFirst : ∀ part ∈ first, separator ∉ part ∧ part ≠ [])
    (ofSecond : ∀ part ∈ second, separator ∉ part ∧ part ≠ [])
    (same : join [separator] first = join [separator] second) :
    first = second := by
  -- Nothing is joined only from nothing, since a part is left of any other list.
  have split :
      ∀ {parts : List Text}, (∀ part ∈ parts, separator ∉ part ∧ part ≠ []) → parts ≠ [] →
        (join [separator] parts).split separator = parts ∧ join [separator] parts ≠ [] := by
    intro parts ofParts notEmpty
    have isSplit := split_join notEmpty fun part member => (ofParts part member).1
    refine ⟨isSplit, fun nothing => ?_⟩
    rw [nothing] at isSplit
    rw [← isSplit] at ofParts
    exact (ofParts [] List.mem_cons_self).2 rfl
  by_cases noFirst : first = []
  · by_contra differ
    refine (split ofSecond fun noSecond => differ (noFirst.trans noSecond.symm)).2 ?_
    rw [← same, noFirst]
    rfl
  · by_cases noSecond : second = []
    · refine absurd ?_ (split ofFirst noFirst).2
      rw [same, noSecond]
      rfl
    · rw [← (split ofFirst noFirst).1, same, (split ofSecond noSecond).1]

end Text

namespace TypeExpression

/-- The forms of type expressions. -/
inductive Form where
  | named
  | branded
  | list
  | record

def form : TypeExpression → Form
  | .named _ => .named
  | .branded _ => .branded
  | .list _ => .list
  | .record _ => .record

/-- The form of the expressions whose texts begin with the given code point. -/
def formOf : (first : Option CodePoint) → Form
  | none => .named
  | some first =>
      if first = 'U' ∨ first = 'I' then .branded
      else if first = 'L' then .list
      else if first = 'R' then .record
      else .named

/-- Type expressions whose names and keys hold no marks, and whose names begin as those of
their form do. -/
inductive IsLegible : TypeExpression → Prop where
  | named
      {name : Text}
      (isUnmarked : name.all CodePoint.isUnmarked = true)
      (begins : formOf name.head? = .named) :
      IsLegible (.named name)
  | branded
      {name : Text}
      (isUnmarked : name.all CodePoint.isUnmarked = true)
      (begins : formOf name.head? = .branded) :
      IsLegible (.branded name)
  | list {element : TypeExpression} (isElement : IsLegible element) : IsLegible (.list element)
  | record
      {fields : RecordFields}
      (areKeys : ∀ field ∈ fields, field.1.all CodePoint.isUnmarked = true)
      (areTypes : ∀ field ∈ fields, IsLegible field.2) :
      IsLegible (.record fields)

/-- How a text begins tells the form of the expression. -/
theorem IsLegible.formOf_render
    {type : TypeExpression}
    (legible : type.IsLegible) :
    formOf type.render.head? = type.form := by
  cases legible with
  | named _ begins =>
      exact begins
  | @branded name _ begins =>
      cases name with
      | nil =>
          cases begins
      | cons first others =>
          exact begins
  | list =>
      rfl
  | record =>
      rfl

theorem IsLegible.form_eq
    {first second : TypeExpression}
    (firstLegible : first.IsLegible)
    (secondLegible : second.IsLegible)
    (same : first.render = second.render) :
    first.form = second.form := by
  rw [← firstLegible.formOf_render, same, secondLegible.formOf_render]

theorem IsLegible.all_render
    {type : TypeExpression}
    (legible : type.IsLegible) :
    type.render.all CodePoint.isUnmarked = true := by
  induction legible with
  | named isUnmarked =>
      exact isUnmarked
  | branded isUnmarked =>
      rw [render, List.all_append, isUnmarked]
      decide
  | list _ inductionHypothesis =>
      rw [render, List.all_append, List.all_append, inductionHypothesis]
      decide
  | record =>
      have everyDigit : ∀ c : CodePoint, Names.isSmallHexDigit c = true → c.isUnmarked = true := by
        intro c isDigit
        obtain ⟨isAscii, continues⟩ := CodePoint.continuesIdentifier_of_isSmallHexDigit isDigit
        rw [CodePoint.continuesIdentifier, if_pos isAscii] at continues
        exact CodePoint.isUnmarked_of_isAsciiWord continues
      rw [render, recordName, List.all_append, Bool.and_eq_true]
      exact ⟨by decide, List.all_eq_true.mpr fun c member =>
        everyDigit c (Octets.isSmallHexDigit_of_mem_toHex member)⟩

/-- The text of a field: its key, a colon and its type. -/
def cell (field : Text × TypeExpression) : Text :=
  field.1 ++ (CodePoint.ofChar ':' :: field.2.render)

theorem renderFields_eq_map
    (fields : RecordFields) :
    renderFields fields = fields.map cell := by
  induction fields with
  | nil =>
      rfl
  | cons field fields inductionHypothesis =>
      have colon : Text.ofString ":" = [CodePoint.ofChar ':'] := rfl
      rw [renderFields, inductionHypothesis, List.map_cons, cell, colon, List.append_assoc,
        List.singleton_append]

theorem notMem_of_isUnmarked
    {t : Text}
    (isUnmarked : t.all CodePoint.isUnmarked = true) :
    CodePoint.ofChar ':' ∉ t ∧ CodePoint.ofChar ',' ∉ t ∧ Text.isScalar t = true := by
  rw [List.all_eq_true] at isUnmarked
  simp only [CodePoint.isUnmarked_iff] at isUnmarked
  refine ⟨fun member => (isUnmarked _ member).1 rfl,
    fun member => (isUnmarked _ member).2.1 rfl, ?_⟩
  rw [Text.isScalar, List.all_eq_true]
  intro c member
  rw [(isUnmarked c member).2.2]
  rfl

section Fields

variable {fields : RecordFields}
variable (legible : (TypeExpression.record fields).IsLegible)

include legible

theorem IsLegible.comma_notMem_cell :
    ∀ part ∈ renderFields fields, CodePoint.ofChar ',' ∉ part ∧ part ≠ [] := by
  cases legible with
  | record areKeys areTypes =>
      intro part member
      rw [renderFields_eq_map] at member
      obtain ⟨field, isField, rfl⟩ := List.mem_map.mp member
      obtain ⟨-, notInKey, -⟩ := notMem_of_isUnmarked (areKeys field isField)
      obtain ⟨-, notInType, -⟩ := notMem_of_isUnmarked (areTypes field isField).all_render
      refine ⟨?_, by simp [cell]⟩
      rw [cell, List.mem_append, List.mem_cons, not_or, not_or]
      exact ⟨notInKey, by decide, notInType⟩

theorem IsLegible.isNameable :
    RecordFields.isNameable fields = true := by
  cases legible with
  | record areKeys areTypes =>
      have ofCells : Text.isScalar (Text.join "," (renderFields fields)) = true := by
        refine Text.isScalar_join (by decide) fun part member => ?_
        rw [renderFields_eq_map] at member
        obtain ⟨field, isField, rfl⟩ := List.mem_map.mp member
        obtain ⟨-, -, keyIsScalar⟩ := notMem_of_isUnmarked (areKeys field isField)
        obtain ⟨-, -, typeIsScalar⟩ := notMem_of_isUnmarked (areTypes field isField).all_render
        rw [cell, Text.isScalar_append, keyIsScalar]
        exact typeIsScalar
      rw [RecordFields.isNameable, RecordFields.structureText, structureText,
        Text.isScalar_append, Text.isScalar_append, ofCells]
      decide

end Fields

/-- Fields are known by their cells if their types are known by their texts. -/
theorem fields_eq_of_cells
    {fields others : RecordFields}
    (noColon :
      ∀ field ∈ fields, CodePoint.ofChar ':' ∉ field.1 ∧ CodePoint.ofChar ':' ∉ field.2.render)
    (sameType :
      ∀ field ∈ fields, ∀ other ∈ others, field.2.render = other.2.render → field.2 = other.2)
    (same : fields.map cell = others.map cell) :
    fields = others := by
  induction fields generalizing others with
  | nil =>
      rw [List.map_nil, eq_comm, List.map_eq_nil_iff] at same
      exact same.symm
  | cons field fields inductionHypothesis =>
      cases others with
      | nil =>
          cases same
      | cons other others =>
          rw [List.map_cons, List.map_cons, List.cons.injEq, cell, cell] at same
          rw [List.forall_mem_cons] at noColon
          obtain ⟨sameKey, -, sameText⟩ :=
            (List.append_cons_inj_of_notMem noColon.1.1 noColon.1.2).mp same.1
          have ofFirst := sameType field List.mem_cons_self other List.mem_cons_self sameText
          have ofOthers := inductionHypothesis noColon.2
            (fun field isField other isOther => sameType field (List.mem_cons_of_mem _ isField)
              other (List.mem_cons_of_mem _ isOther)) same.2
          rw [Prod.ext sameKey ofFirst, ofOthers]

end TypeExpression

/-- Records that are built from different structures have different digests. -/
def DigestsApart (records : List RecordFields) : Prop :=
  ∀ first ∈ records, ∀ second ∈ records,
    Blake2b.digest 8 (Text.utf8 first.structureText) =
        Blake2b.digest 8 (Text.utf8 second.structureText) →
      Text.utf8 first.structureText = Text.utf8 second.structureText

theorem digestsApart_of_nodup
    {records : List RecordFields}
    (different :
      (records.map fun record => Blake2b.digest 8 (Text.utf8 record.structureText)).Nodup) :
    DigestsApart records := by
  intro first isFirst second isSecond same
  rw [List.inj_on_of_nodup_map different isFirst isSecond same]

namespace TypeExpression

theorem mem_records_record
    (fields : RecordFields) :
    fields ∈ (record fields).records := by
  rw [records]
  exact List.mem_append_right _ List.mem_cons_self

theorem mem_records_of_field
    {fields : RecordFields}
    {field : Text × TypeExpression}
    (isField : field ∈ fields)
    {record : RecordFields}
    (member : record ∈ field.2.records) :
    record ∈ (TypeExpression.record fields).records := by
  rw [records, recordsOfFields_eq_flatMap]
  exact List.mem_append_left _ (List.mem_flatMap.mpr ⟨field, isField, member⟩)

/-- Records with the same name have the same cells, if their digests are apart. -/
theorem map_cell_eq_of_name
    {known : List RecordFields}
    (apart : DigestsApart known)
    {first second : RecordFields}
    (firstKnown : first ∈ known)
    (secondKnown : second ∈ known)
    (firstLegible : (TypeExpression.record first).IsLegible)
    (secondLegible : (TypeExpression.record second).IsLegible)
    (sameName : first.name = second.name) :
    first.map cell = second.map cell := by
  have sameDigest := Octets.toHex_injective (List.append_cancel_left sameName)
  have sameStructure : first.structureText = second.structureText :=
    Text.utf8_injective firstLegible.isNameable secondLegible.isNameable
      (apart first firstKnown second secondKnown sameDigest)
  have sameJoined := List.append_cancel_left (List.append_cancel_right sameStructure)
  have sameCells := Text.join_injective firstLegible.comma_notMem_cell
    secondLegible.comma_notMem_cell sameJoined
  rwa [renderFields_eq_map, renderFields_eq_map] at sameCells

/-- Legible type expressions with the same text are the same, if the digests of their records
are apart. -/
theorem IsLegible.eq_of_render
    {known : List RecordFields}
    (apart : DigestsApart known)
    {first second : TypeExpression}
    (firstLegible : first.IsLegible)
    (secondLegible : second.IsLegible)
    (firstKnown : ∀ record ∈ first.records, record ∈ known)
    (secondKnown : ∀ record ∈ second.records, record ∈ known)
    (same : first.render = second.render) :
    first = second := by
  induction firstLegible generalizing second with
  | named isUnmarked begins =>
      have sameForm := IsLegible.form_eq (.named isUnmarked begins) secondLegible same
      cases secondLegible with
      | named =>
          exact congrArg TypeExpression.named same
      | _ =>
          cases sameForm
  | branded isUnmarked begins =>
      have sameForm := IsLegible.form_eq (.branded isUnmarked begins) secondLegible same
      cases secondLegible with
      | branded =>
          exact congrArg TypeExpression.branded (List.append_cancel_right same)
      | _ =>
          cases sameForm
  | list isElement inductionHypothesis =>
      have sameForm := IsLegible.form_eq (.list isElement) secondLegible same
      cases secondLegible with
      | list isOther =>
          have sameElement := List.append_cancel_left (List.append_cancel_right same)
          exact congrArg TypeExpression.list
            (inductionHypothesis isOther firstKnown secondKnown sameElement)
      | _ =>
          cases sameForm
  | @record fields areKeys areTypes inductionHypothesis =>
      have sameForm := IsLegible.form_eq (.record areKeys areTypes) secondLegible same
      cases secondLegible with
      | @record others areOtherKeys areOtherTypes =>
          have sameCells := map_cell_eq_of_name apart
            (firstKnown fields (mem_records_record fields))
            (secondKnown others (mem_records_record others))
            (.record areKeys areTypes) (.record areOtherKeys areOtherTypes) same
          have noColon :
              ∀ field ∈ fields,
                CodePoint.ofChar ':' ∉ field.1 ∧ CodePoint.ofChar ':' ∉ field.2.render :=
            fun field isField => ⟨(notMem_of_isUnmarked (areKeys field isField)).1,
              (notMem_of_isUnmarked (areTypes field isField).all_render).1⟩
          refine congrArg TypeExpression.record (fields_eq_of_cells noColon ?_ sameCells)
          intro field isField other isOther sameText
          exact inductionHypothesis field isField (areOtherTypes other isOther)
            (fun record member => firstKnown record (mem_records_of_field isField member))
            (fun record member => secondKnown record (mem_records_of_field isOther member)) sameText
      | _ =>
          cases sameForm

end TypeExpression

end ContractBindings
