import Mathlib.Algebra.Group.Nat.Defs
import ContractBindings.Proofs.DeclaredValues
import ContractBindings.Proofs.Texts
import ContractBindings.Source.Readable

namespace ContractBindings

/-!
# Reading literals back

A literal is read from left to right, one code point after another.  The lists and mappings
that are open stand on a stack, and no more brackets are opened in each other than the
language reads.  Main statement: the literal of a text, of a truth value, or of lists and
mappings of such values is read back as this value if its brackets are not too many, and
else not at all; it stands on one line either way.
-/

namespace Literal

/-- A list or a mapping that is open, with what was read of it. -/
inductive Frame where
  | list (members : List Value)
  /-- A mapping in front of a key. -/
  | mapping (entries : Entries)
  /-- A mapping in front of the value of a key. -/
  | entry (entries : Entries) (key : Key)

/-- What is being read. -/
inductive Mode where
  /-- A value is about to begin. -/
  | value
  | text (quote : CodePoint) (before : Text)
  /-- A text, behind a backslash. -/
  | escape (quote : CodePoint) (before : Text)
  /-- A text, in front of a digit that writes a code point and as many others as are left. -/
  | digit (quote : CodePoint) (before : Text) (left number : Nat)
  /-- A word that stands for a value, in front of its rest. -/
  | word (rest : Text) (value : Value)
  | done (value : Value)

/-- A reader in a literal. -/
structure Reader where
  frames : List Frame
  mode : Mode

namespace Reader

/-- Opens a bracket, if no more are open than can be, `around` of them around the literal. -/
def openFrame (around : Nat) (frames : List Frame) (frame : Frame) : Option Reader :=
  if around + frames.length < Source.greatestBrackets then some ⟨frame :: frames, .value⟩
  else none

/-- The words that stand for values, by their first letter. -/
def word? (first : CodePoint) : Option (Text × Value) :=
  if first = 'T' then some ("rue", .bool true)
  else if first = 'F' then some ("alse", .bool false)
  else if first = 'N' then some ("one", .null)
  else none

/-- Reads a code point where a value is about to begin, or a list or a mapping may end. -/
def begin (around : Nat) (frames : List Frame) (c : CodePoint) : Option Reader :=
  if Source.isLineBlank c then some ⟨frames, .value⟩
  else if c = '\'' ∨ c = '"' then some ⟨frames, .text c []⟩
  else if c = '[' then openFrame around frames (.list [])
  else if c = '\x7b' then openFrame around frames (.mapping [])
  else
    match frames with
    | .list members :: outer =>
        if c = ']' then some ⟨outer, .done (.list members)⟩
        else (word? c).map fun (rest, v) => ⟨frames, .word rest v⟩
    | .mapping entries :: outer =>
        if c = '\x7d' then some ⟨outer, .done (.dict entries)⟩
        else (word? c).map fun (rest, v) => ⟨frames, .word rest v⟩
    | _ => (word? c).map fun (rest, v) => ⟨frames, .word rest v⟩

/-- Reads a code point behind a value. -/
def finish (frames : List Frame) (v : Value) (c : CodePoint) : Option Reader :=
  if Source.isLineBlank c then some ⟨frames, .done v⟩
  else
    match frames with
    | .list members :: outer =>
        if c = ',' then some ⟨.list (members ++ [v]) :: outer, .value⟩
        else if c = ']' then some ⟨outer, .done (.list (members ++ [v]))⟩
        else none
    | .mapping entries :: outer =>
        if c = ':' then v.toKey?.map fun key => ⟨.entry entries key :: outer, .value⟩ else none
    | .entry entries key :: outer =>
        if c = ',' then some ⟨.mapping (entries.set key v) :: outer, .value⟩
        else if c = '\x7d' then some ⟨outer, .done (.dict (entries.set key v))⟩
        else none
    | [] => none

/-- The code point of an escape with a single letter or sign. -/
def escaped? (c : CodePoint) : Option CodePoint :=
  if c = '\\' ∨ c = '\'' ∨ c = '"' then some c
  else if c = 'n' then some '\n'
  else if c = 'r' then some '\r'
  else if c = 't' then some '\t'
  else none

/-- How many digits follow the letter of an escape that writes a code point. -/
def digitsOf? (c : CodePoint) : Option Nat :=
  if c = 'x' then some 2
  else if c = 'u' then some 4
  else if c = 'U' then some 8
  else none

/-- Reads a code point.  A text ends on its line, and of the escapes those are read that
the literals of texts have. -/
def step (around : Nat) (reader : Reader) (c : CodePoint) : Option Reader :=
  match reader.mode with
  | .value => begin around reader.frames c
  | .done v => finish reader.frames v c
  | .word rest v =>
      match rest with
      | [] => none
      | [last] => if c = last then some ⟨reader.frames, .done v⟩ else none
      | next :: rest => if c = next then some ⟨reader.frames, .word rest v⟩ else none
  | .text quote before =>
      if c = quote then some ⟨reader.frames, .done (.text before)⟩
      else if c = '\\' then some ⟨reader.frames, .escape quote before⟩
      else if c = '\n' ∨ c = '\r' then none
      else some ⟨reader.frames, .text quote (before ++ [c])⟩
  | .escape quote before =>
      match escaped? c, digitsOf? c with
      | some written, _ => some ⟨reader.frames, .text quote (before ++ [written])⟩
      | none, some (left + 1) => some ⟨reader.frames, .digit quote before left 0⟩
      | _, _ => none
  | .digit quote before left number => do
      let number := 16 * number + (← c.hexDigit?)
      match left with
      | left + 1 => some ⟨reader.frames, .digit quote before left number⟩
      | 0 =>
          if number < 0x110000 then
            some ⟨reader.frames, .text quote (before ++ [CodePoint.ofNat number])⟩
          else none

/-- Reads a text. -/
def run (around : Nat) (reader : Reader) (t : Text) : Option Reader :=
  t.foldlM (step around) reader

end Reader

/-- The value that a literal is read as, with `around` brackets open around it. -/
def read? (around : Nat) (literal : Text) : Option Value :=
  match Reader.run around ⟨[], .value⟩ literal with
  | some ⟨[], .done v⟩ => some v
  | _ => none

namespace Reader

variable {around : Nat} {frames : List Frame}

theorem run_append
    (reader : Reader)
    (first second : Text) :
    run around reader (first ++ second) =
      (run around reader first).bind fun next => run around next second :=
  List.foldlM_append

theorem run_cons
    {reader next : Reader}
    {c : CodePoint}
    (steps : step around reader c = some next)
    (t : Text) :
    run around reader (c :: t) = run around next t := by
  rw [run, List.foldlM_cons, steps]
  rfl

/-- What is read of a first text, the rest is read behind. -/
theorem run_append_of_some
    {reader next : Reader}
    {first : Text}
    (reads : run around reader first = some next)
    (second : Text) :
    run around reader (first ++ second) = run around next second := by
  rw [run_append, reads, Option.bind_some]

theorem run_append_of_none
    {reader : Reader}
    {first : Text}
    (fails : run around reader first = none)
    (second : Text) :
    run around reader (first ++ second) = none := by
  rw [run_append, fails, Option.bind_none]

/-!
## Texts
-/

section

variable {quote : CodePoint} (isQuote : quote = '\'' ∨ quote = '"') (before : Text)

include isQuote

theorem step_backslash :
    step around ⟨frames, .text quote before⟩ '\\' = some ⟨frames, .escape quote before⟩ := by
  rcases isQuote with rfl | rfl <;> rfl

/-- An escape with a single sign is read as the code point that it stands for. -/
theorem run_escaped
    {sign c : CodePoint}
    (stands : escaped? sign = some c) :
    run around ⟨frames, .text quote before⟩ ['\\', sign] =
      some ⟨frames, .text quote (before ++ [c])⟩ := by
  have steps :
      step around ⟨frames, .escape quote before⟩ sign =
        some ⟨frames, .text quote (before ++ [c])⟩ := by
    simp only [step, stands]
  rw [run_cons (step_backslash isQuote before), run_cons steps]
  rfl

omit isQuote in
/-- Digits are read as part of the number that they write, if others follow. -/
theorem run_hexPadded
    {width n : Nat}
    (fits : n < 16 ^ width)
    (left number : Nat) :
    run around ⟨frames, .digit quote before (left + width) number⟩ (Text.hexPadded width n) =
      some ⟨frames, .digit quote before left (16 ^ width * number + n)⟩ := by
  induction width generalizing n left with
  | zero =>
      obtain rfl : n = 0 := by
        simpa using fits
      simp [run, Text.hexPadded]
  | succ width inductionHypothesis =>
      have leading : n / 16 < 16 ^ width := by
        rw [Nat.pow_succ] at fits
        omega
      have isDigit := Octets.hexDigit?_hexDigit (Nat.mod_lt n (by decide : 0 < 16))
      have ofLeading := inductionHypothesis leading (left + 1)
      rw [show left + 1 + width = left + (width + 1) by omega] at ofLeading
      rw [Text.hexPadded, run_append_of_some ofLeading]
      have steps :
          step around ⟨frames, .digit quote before (left + 1) (16 ^ width * number + n / 16)⟩
              (Octets.hexDigit (n % 16)) =
            some ⟨frames, .digit quote before left (16 ^ (width + 1) * number + n)⟩ := by
        have sum :
            16 * (16 ^ width * number + n / 16) + n % 16 = 16 ^ (width + 1) * number + n := by
          rw [Nat.pow_succ, Nat.mul_add, Nat.add_assoc, Nat.div_add_mod, ← Nat.mul_assoc,
            Nat.mul_comm 16]
        simp only [step, isDigit, Option.bind_eq_bind, Option.bind_some, sum]
      rw [run_cons steps]
      rfl

/-- An escape with digits is read as the code point that the digits write. -/
theorem run_written
    {letter : CodePoint}
    {width : Nat}
    (isLetter : escaped? letter = none ∧ digitsOf? letter = some (width + 1))
    {c : CodePoint}
    (fits : c.val < 16 ^ (width + 1)) :
    run around ⟨frames, .text quote before⟩
        ('\\' :: letter :: Text.hexPadded (width + 1) c.val) =
      some ⟨frames, .text quote (before ++ [c])⟩ := by
  have isEscape :
      step around ⟨frames, .escape quote before⟩ letter =
        some ⟨frames, .digit quote before width 0⟩ := by
    simp only [step, isLetter.1, isLetter.2]
  have leading : c.val / 16 < 16 ^ width := by
    rw [Nat.pow_succ] at fits
    omega
  have isDigit := Octets.hexDigit?_hexDigit (Nat.mod_lt c.val (by decide : 0 < 16))
  have ofLeading := @run_hexPadded around frames quote before width (c.val / 16) leading 0 0
  have sum : 16 * (c.val / 16) + c.val % 16 = c.val :=
    Nat.div_add_mod c.val 16
  have isLast :
      step around ⟨frames, .digit quote before 0 (c.val / 16)⟩ (Octets.hexDigit (c.val % 16)) =
        some ⟨frames, .text quote (before ++ [c])⟩ := by
    simp only [step, isDigit, Option.bind_eq_bind, Option.bind_some, sum, c.isLt, ↓reduceIte,
      CodePoint.ofNat, ↓reduceDIte, Fin.eta]
  rw [run_cons (step_backslash isQuote before), run_cons isEscape, Text.hexPadded]
  rw [Nat.zero_add, Nat.mul_zero, Nat.zero_add] at ofLeading
  rw [run_append_of_some ofLeading, run_cons isLast]
  rfl

/-- A code point of a text is read back. -/
theorem run_quoteOne
    (c : CodePoint) :
    run around ⟨frames, .text quote before⟩ (Text.quoteOne quote c) =
      some ⟨frames, .text quote (before ++ [c])⟩ := by
  rw [Text.quoteOne]
  split
  case isTrue special =>
    refine run_escaped isQuote before (if_pos ?_)
    rcases special with rfl | rfl
    · exact Or.inr isQuote
    · exact Or.inl rfl
  case isFalse plain =>
    rw [not_or] at plain
    split
    case isTrue isBreak =>
      rw [isBreak]
      exact run_escaped isQuote before rfl
    case isFalse noBreak =>
      split
      case isTrue isReturn =>
        rw [isReturn]
        exact run_escaped isQuote before rfl
      case isFalse noReturn =>
        split
        case isTrue isTab =>
          rw [isTab]
          exact run_escaped isQuote before rfl
        case isFalse =>
          split
          case isTrue =>
            have steps :
                step around ⟨frames, .text quote before⟩ c =
                  some ⟨frames, .text quote (before ++ [c])⟩ := by
              simp only [step, plain.1, plain.2, noBreak, noReturn, or_self, ↓reduceIte]
            rw [run_cons steps]
            rfl
          case isFalse =>
            split
            case isTrue isShort =>
              exact run_written isQuote before ⟨rfl, rfl⟩ isShort
            case isFalse =>
              split
              case isTrue isMedium =>
                exact run_written isQuote before ⟨rfl, rfl⟩ isMedium
              case isFalse =>
                exact run_written isQuote before ⟨rfl, rfl⟩ (Nat.lt_trans c.isLt (by decide))

theorem run_quoteEach
    (t : Text) :
    run around ⟨frames, .text quote before⟩ (t.flatMap (Text.quoteOne quote)) =
      some ⟨frames, .text quote (before ++ t)⟩ := by
  induction t generalizing before with
  | nil =>
      simp [run]
  | cons c t inductionHypothesis =>
      rw [List.flatMap_cons, run_append_of_some (run_quoteOne isQuote before c),
        inductionHypothesis, List.append_assoc]
      rfl

omit isQuote in
/-- Code points that need no escape are read as they are. -/
theorem run_plain
    {t : Text}
    (arePlain : ∀ c ∈ t, c ≠ quote ∧ c ≠ '\\' ∧ c ≠ '\n' ∧ c ≠ '\r') :
    run around ⟨frames, .text quote before⟩ t = some ⟨frames, .text quote (before ++ t)⟩ := by
  induction t generalizing before with
  | nil =>
      rw [List.append_nil]
      rfl
  | cons c t inductionHypothesis =>
      rw [List.forall_mem_cons] at arePlain
      obtain ⟨notQuote, noBackslash, noBreak, noReturn⟩ := arePlain.1
      have steps :
          step around ⟨frames, .text quote before⟩ c =
            some ⟨frames, .text quote (before ++ [c])⟩ := by
        simp only [step, notQuote, noBackslash, noBreak, noReturn, or_self, ↓reduceIte]
      rw [run_cons steps, inductionHypothesis _ arePlain.2, List.append_assoc]
      rfl

end

theorem isQuote_quoteFor
    (t : Text) :
    Text.quoteFor t = '\'' ∨ Text.quoteFor t = '"' := by
  rw [Text.quoteFor]
  split
  · exact Or.inr rfl
  · exact Or.inl rfl

/-- A literal of a text is read back. -/
theorem run_quoted
    (t : Text) :
    run around ⟨frames, .value⟩ t.quoted = some ⟨frames, .done (.text t)⟩ := by
  have isQuote := isQuote_quoteFor t
  have opens :
      step around ⟨frames, .value⟩ (Text.quoteFor t) =
        some ⟨frames, .text (Text.quoteFor t) []⟩ := by
    rcases isQuote with same | same <;> rw [same] <;> rfl
  have closes :
      step around ⟨frames, .text (Text.quoteFor t) t⟩ (Text.quoteFor t) =
        some ⟨frames, .done (.text t)⟩ := by
    simp only [step, ↓reduceIte]
  rw [Text.quoted, List.cons_append, run_cons opens,
    run_append_of_some (run_quoteEach isQuote [] t), List.nil_append, run_cons closes]
  rfl

end Reader

end Literal

namespace Entries

/-- The entries of fields, under the texts that name them. -/
def ofFields (fields : List (Text × Value)) : Entries :=
  fields.map fun field => (.text field.1, field.2)

/-- Stores entries one after another. -/
def setEach (entries added : Entries) : Entries :=
  added.foldl (fun result entry => result.set entry.1 entry.2) entries

theorem setEach_ofFields
    {fields : List (Text × Value)}
    (distinct : (fields.map (·.1)).Nodup) :
    setEach [] (ofFields fields) = ofFields fields := by
  have isZip :
      ofFields fields = ((fields.map (·.1)).map Key.text).zip (fields.map (·.2)) := by
    rw [ofFields, List.map_map, List.zip_map']
    rfl
  rw [isZip]
  exact ofList_zip distinct _

end Entries

namespace Value

/-- What parameters are described by: texts, truth values, and lists of such values and
mappings to such values under distinct texts. -/
inductive IsPlain : Value → Prop where
  | text (t : Text) : IsPlain (.text t)
  | bool (b : Bool) : IsPlain (.bool b)
  | list {vs : List Value} : (∀ v ∈ vs, IsPlain v) → IsPlain (.list vs)
  | dict {fields : List (Text × Value)} :
      (fields.map (·.1)).Nodup → (∀ field ∈ fields, IsPlain field.2) →
        IsPlain (.dict (Entries.ofFields fields))

end Value

namespace Literal

namespace Reader

variable {around : Nat} {frames : List Frame}

/-!
## Values
-/

/-- The literal of a value is read back in brackets that can be open, if those of the value
can be open too. -/
def ReadsBack (around : Nat) (v : Value) : Prop :=
  ∀ frames, around + frames.length ≤ Source.greatestBrackets →
    run around ⟨frames, .value⟩ v.literal =
      if around + frames.length + v.brackets ≤ Source.greatestBrackets then
        some ⟨frames, .done v⟩
      else none

theorem readsBack_text
    (t : Text) :
    ReadsBack around (.text t) := by
  intro frames isOpen
  exact (run_quoted t).trans (if_pos isOpen).symm

theorem readsBack_bool
    (b : Bool) :
    ReadsBack around (.bool b) := by
  intro frames isOpen
  have reads :
      run around ⟨frames, .value⟩ (Value.bool b).literal = some ⟨frames, .done (.bool b)⟩ := by
    rcases frames with _ | ⟨_ | _ | _, frames⟩ <;> cases b <;> rfl
  exact reads.trans (if_pos isOpen).symm

/-- The literals of members and their end, behind the first one. -/
def restOf (separator close : Text) : List Text → Text
  | [] => close
  | others => separator ++ (Text.join separator others ++ close)

theorem join_append
    (separator close first : Text)
    (others : List Text) :
    Text.join separator (first :: others) ++ close = first ++ restOf separator close others := by
  cases others with
  | nil =>
      rw [Text.join_singleton]
      rfl
  | cons second others =>
      rw [Text.join_cons_cons, List.append_assoc, List.append_assoc]
      rfl

/-- The members of a list are read up to its end. -/
theorem run_literals
    {vs : List Value}
    (each : ∀ v ∈ vs, ReadsBack around v)
    (isOpen : around + frames.length < Source.greatestBrackets)
    (members : List Value) :
    run around ⟨.list members :: frames, .value⟩
        (Text.join ", " (Value.literals vs) ++ "]") =
      if around + frames.length + (Value.bracketsOfAll vs + 1) ≤ Source.greatestBrackets then
        some ⟨frames, .done (.list (members ++ vs))⟩
      else none := by
  induction vs generalizing members with
  | nil =>
      rw [if_pos (by rw [Value.bracketsOfAll]; omega), List.append_nil]
      rfl
  | cons v vs inductionHypothesis =>
      have ofFirst := each v List.mem_cons_self (.list members :: frames) isOpen
      have ofOthers :=
        inductionHypothesis (fun other member => each other (List.mem_cons_of_mem v member))
          (members ++ [v])
      rw [List.length_cons] at ofFirst
      rw [Value.bracketsOfAll, Value.literals, join_append]
      by_cases fits : around + (frames.length + 1) + v.brackets ≤ Source.greatestBrackets
      · rw [if_pos fits] at ofFirst
        rw [run_append_of_some ofFirst]
        cases vs with
        | nil =>
            rw [if_pos (by rw [Value.bracketsOfAll]; omega)]
            rfl
        | cons w vs =>
            have behindComma :
                run around ⟨.list members :: frames, .done v⟩
                    (restOf ", " "]" (Value.literals (w :: vs))) =
                  run around ⟨.list (members ++ [v]) :: frames, .value⟩
                    (Text.join ", " (Value.literals (w :: vs)) ++ "]") := by
              rfl
            rw [behindComma, ofOthers, List.append_assoc, List.singleton_append]
            exact if_congr (by omega) rfl rfl
      · rw [if_neg fits] at ofFirst
        rw [run_append_of_none ofFirst, if_neg (by omega)]

/-- The entries of a mapping are read up to its end, and stored one after another. -/
theorem run_entryLiterals
    {fields : List (Text × Value)}
    (each : ∀ field ∈ fields, ReadsBack around field.2)
    (isOpen : around + frames.length < Source.greatestBrackets)
    (entries : Entries) :
    run around ⟨.mapping entries :: frames, .value⟩
        (Text.join ", " (Value.entryLiterals (Entries.ofFields fields)) ++ "\x7d") =
      if around + frames.length + (Value.bracketsOfEntries (Entries.ofFields fields) + 1) ≤
          Source.greatestBrackets then
        some ⟨frames, .done (.dict (entries.setEach (Entries.ofFields fields)))⟩
      else none := by
  induction fields generalizing entries with
  | nil =>
      rw [Entries.ofFields, List.map_nil, if_pos (by rw [Value.bracketsOfEntries]; omega)]
      rfl
  | cons field fields inductionHypothesis =>
      obtain ⟨key, v⟩ := field
      have ofValue := each (key, v) List.mem_cons_self (.entry entries (.text key) :: frames) isOpen
      have ofOthers :=
        inductionHypothesis (fun other member => each other (.tail _ member))
          (entries.set (.text key) v)
      have ofEntry :
          run around ⟨.mapping entries :: frames, .value⟩ (key.quoted ++ ": " ++ v.literal) =
            run around ⟨.entry entries (.text key) :: frames, .value⟩ v.literal := by
        rw [List.append_assoc, run_append_of_some (run_quoted key)]
        rfl
      have isCons :
          Entries.ofFields ((key, v) :: fields) = (.text key, v) :: Entries.ofFields fields :=
        rfl
      rw [ofValue, List.length_cons] at ofEntry
      rw [isCons, Value.bracketsOfEntries, Value.entryLiterals, join_append, Value.keyLiteral]
      by_cases fits : around + (frames.length + 1) + v.brackets ≤ Source.greatestBrackets
      · rw [if_pos fits] at ofEntry
        rw [run_append_of_some ofEntry]
        cases fields with
        | nil =>
            rw [if_pos (by rw [Entries.ofFields, List.map_nil, Value.bracketsOfEntries]; omega)]
            rfl
        | cons other fields =>
            have behindComma :
                run around ⟨.entry entries (.text key) :: frames, .done v⟩
                    (restOf ", " "\x7d"
                      (Value.entryLiterals (Entries.ofFields (other :: fields)))) =
                  run around ⟨.mapping (entries.set (.text key) v) :: frames, .value⟩
                    (Text.join ", "
                      (Value.entryLiterals (Entries.ofFields (other :: fields))) ++ "\x7d") := by
              rfl
            rw [behindComma, ofOthers]
            exact if_congr (by omega) rfl rfl
      · rw [if_neg fits] at ofEntry
        rw [run_append_of_none ofEntry, if_neg (by omega)]

/-- What stands in brackets is read if they can be open. -/
theorem run_open
    {opener : CodePoint}
    {frame : Frame}
    (opens : step around ⟨frames, .value⟩ opener = openFrame around frames frame)
    (t : Text) :
    run around ⟨frames, .value⟩ (opener :: t) =
      if around + frames.length < Source.greatestBrackets then
        run around ⟨frame :: frames, .value⟩ t
      else none := by
  rw [run, List.foldlM_cons, opens, openFrame]
  split <;> rfl

theorem readsBack_list
    {vs : List Value}
    (each : ∀ v ∈ vs, ReadsBack around v) :
    ReadsBack around (.list vs) := by
  intro frames _
  have isBracketed :
      (Value.list vs).literal =
        CodePoint.ofChar '[' :: (Text.join ", " (Value.literals vs) ++ "]") :=
    rfl
  rw [isBracketed, run_open rfl, Value.brackets]
  split
  case isTrue isOpen =>
    exact run_literals each isOpen []
  case isFalse =>
    rw [if_neg (by omega)]

/-- Of a mapping its entries are read, one after another. -/
theorem run_dict
    {fields : List (Text × Value)}
    (each : ∀ field ∈ fields, ReadsBack around field.2) :
    run around ⟨frames, .value⟩ (Value.dict (Entries.ofFields fields)).literal =
      if around + frames.length + (Value.bracketsOfEntries (Entries.ofFields fields) + 1) ≤
          Source.greatestBrackets then
        some ⟨frames, .done (.dict (Entries.setEach [] (Entries.ofFields fields)))⟩
      else none := by
  have isBracketed :
      (Value.dict (Entries.ofFields fields)).literal =
        CodePoint.ofChar '\x7b' ::
          (Text.join ", " (Value.entryLiterals (Entries.ofFields fields)) ++ "\x7d") :=
    rfl
  rw [isBracketed, run_open rfl]
  split
  case isTrue isOpen =>
    exact run_entryLiterals each isOpen []
  case isFalse =>
    rw [if_neg (by omega)]

/-- The literal of a value that describes a parameter is read back. -/
theorem readsBack_of_isPlain
    {v : Value}
    (plain : v.IsPlain) :
    ReadsBack around v := by
  induction plain with
  | text t =>
      exact readsBack_text t
  | bool b =>
      exact readsBack_bool b
  | list _ inductionHypothesis =>
      exact readsBack_list inductionHypothesis
  | dict distinct _ inductionHypothesis =>
      intro frames _
      rw [run_dict inductionHypothesis, Entries.setEach_ofFields distinct]
      rfl

end Reader

/-- A literal is read back exactly if no more brackets stand in each other than are read. -/
theorem read?_literal
    {v : Value}
    (plain : v.IsPlain)
    {around : Nat}
    (isOpen : around ≤ Source.greatestBrackets) :
    read? around v.literal =
      if around + v.brackets ≤ Source.greatestBrackets then some v else none := by
  rw [read?, Reader.readsBack_of_isPlain plain [] isOpen, List.length_nil, Nat.add_zero]
  by_cases fits : around + v.brackets ≤ Source.greatestBrackets
  · rw [if_pos fits, if_pos fits]
  · rw [if_neg fits, if_neg fits]

theorem read?_quoted
    (t : Text)
    {around : Nat}
    (isOpen : around ≤ Source.greatestBrackets) :
    read? around t.quoted = some (.text t) :=
  (read?_literal (.text t) isOpen).trans (if_pos isOpen)

/-- Whether all code points of a text are printable. -/
def isPrintable (t : Text) : Bool :=
  t.all CodePoint.isPrintable

theorem literals_eq_map
    (vs : List Value) :
    Value.literals vs = vs.map (·.literal) := by
  induction vs with
  | nil =>
      rfl
  | cons v vs inductionHypothesis =>
      rw [Value.literals, inductionHypothesis, List.map_cons]

theorem entryLiterals_eq_map
    (fields : List (Text × Value)) :
    Value.entryLiterals (Entries.ofFields fields) =
      fields.map fun field => (field.1.quoted ++ ": " ++ field.2.literal : Text) := by
  induction fields with
  | nil =>
      rfl
  | cons field fields inductionHypothesis =>
      rw [List.map_cons, ← inductionHypothesis]
      rfl

end Literal

end ContractBindings
