import ContractBindings.Proofs.LiteralLines
import ContractBindings.Proofs.MethodDocumentation

namespace ContractBindings

/-!
# The outer lines of a module

A line break in a text between triple quotes ends no line of the module around it.  A module
is scanned from its beginning, which tells code and texts apart.  Main statement: what is
written on a line is an outer line of its own if every text that begins in it also ends in it.
This holds of literals, and of documentation that is nothing but texts between triple quotes.
-/

namespace Source

/-- Where the scan of a module stands. -/
inductive Spot where
  | code
  /-- Behind one double quote, with which a text begins. -/
  | opened
  /-- Behind two double quotes, which are an empty text or the beginning of a long one. -/
  | emptied
  | text (quote : CodePoint)
  | escape (quote : CodePoint)
  /-- In a text between triple quotes, behind so many quotes that may end it. -/
  | long (quotes : Nat)
  | longEscape

namespace Spot

/-- Where the scan stands behind a code point of code. -/
def behindCode (c : CodePoint) : Spot :=
  if c = '"' then .opened
  else if c = '\'' then .text '\''
  else .code

/-- Where the scan stands behind a code point of a text on one line. -/
def behindText (quote c : CodePoint) : Spot :=
  if c = quote then .code
  else if c = '\\' then .escape quote
  else .text quote

/-- Where the scan stands behind one more code point. -/
def step : Spot → CodePoint → Spot
  | .code, c => behindCode c
  | .opened, c => if c = '"' then .emptied else behindText '"' c
  | .emptied, c => if c = '"' then .long 0 else behindCode c
  | .text quote, c => behindText quote c
  | .escape quote, _ => .text quote
  | .long quotes, c =>
      if c = '"' then
        if quotes = 2 then .code else .long (quotes + 1)
      else if c = '\\' then .longEscape
      else .long 0
  | .longEscape, _ => .long 0

/-- Whether a line break ends an outer line. -/
def endsLine : Spot → Bool
  | .code => true
  | .emptied => true
  | _ => false

/-- Where the scan stands behind a text in which no outer line ends. -/
def run : Spot → Text → Option Spot
  | spot, [] => some spot
  | spot, c :: t => if c = '\n' ∧ spot.endsLine = true then none else run (spot.step c) t

theorem run_append
    (spot : Spot)
    (first second : Text) :
    run spot (first ++ second) = (run spot first).bind (run · second) := by
  induction first generalizing spot with
  | nil =>
      rfl
  | cons c first inductionHypothesis =>
      rw [List.cons_append, run, run]
      split
      case isTrue =>
        rfl
      case isFalse =>
        exact inductionHypothesis _

theorem run_append_of_some
    {spot behind : Spot}
    {first : Text}
    (runs : run spot first = some behind)
    (second : Text) :
    run spot (first ++ second) = run behind second := by
  rw [run_append, runs, Option.bind_some]

/-- A code point other than a line break is one more step. -/
theorem run_cons
    {c : CodePoint}
    (noBreak : c ≠ '\n')
    (spot : Spot)
    (t : Text) :
    run spot (c :: t) = run (spot.step c) t := by
  rw [run, if_neg fun isBreak => noBreak isBreak.1]

/-- A line break in a text is a step like any other. -/
theorem run_cons_of_not_endsLine
    {spot : Spot}
    (inText : spot.endsLine = false)
    (c : CodePoint)
    (t : Text) :
    run spot (c :: t) = run (spot.step c) t := by
  rw [run, if_neg fun isBreak => by simp [inText] at isBreak]

end Spot

/-- The lines of a module, where a line break in a text ends none. -/
def outerLines : Spot → Text → List Text
  | _, [] => [[]]
  | spot, c :: t =>
      if c = '\n' ∧ spot.endsLine = true then [] :: outerLines .code t
      else
        match outerLines (spot.step c) t with
        | [] => [[c]]
        | first :: others => (c :: first) :: others

/-- A text without outer line breaks is an outer line if a line break follows where one ends
a line. -/
theorem outerLines_append_cons
    {spot behind : Spot}
    {t : Text}
    (runs : spot.run t = some behind)
    (ends : behind.endsLine = true)
    (rest : Text) :
    outerLines spot (t ++ CodePoint.ofChar '\n' :: rest) = t :: outerLines .code rest := by
  induction t generalizing spot with
  | nil =>
      cases runs
      exact if_pos ⟨rfl, ends⟩
  | cons c t inductionHypothesis =>
      rw [Spot.run] at runs
      split at runs
      case isTrue =>
        cases runs
      case isFalse noBreak =>
        rw [List.cons_append, outerLines, if_neg noBreak, inductionHypothesis runs]

/-- The lines of a module that are not empty, where a line break in a text ends none. -/
def codeLines (t : Text) : List Text :=
  (outerLines .code t).filter (! ·.isEmpty)

/-!
## Closed texts
-/

/-- A text in which no line ends and every text that begins also ends. -/
def Closed (t : Text) : Prop :=
  Spot.code.run t = some .code

theorem Closed.append
    {first second : Text}
    (ofFirst : Closed first)
    (ofSecond : Closed second) :
    Closed (first ++ second) :=
  (Spot.run_append_of_some ofFirst second).trans ofSecond

theorem Closed.between
    {start t stop : Text}
    (ofStart : Closed start)
    (ofText : Closed t)
    (ofStop : Closed stop) :
    Closed (start ++ t ++ stop) :=
  (ofStart.append ofText).append ofStop

/-- Whether a code point is neither a quote nor a line break. -/
def isBare (c : CodePoint) : Bool :=
  c ≠ '"' && c ≠ '\'' && c ≠ '\n'

theorem isBare_iff
    {c : CodePoint} :
    isBare c = true ↔ c ≠ '"' ∧ c ≠ '\'' ∧ c ≠ '\n' := by
  simp only [isBare, Bool.and_eq_true, decide_eq_true_eq, and_assoc]

theorem closed_of_isBare
    {t : Text}
    (bare : ∀ c ∈ t, isBare c = true) :
    Closed t := by
  induction t with
  | nil =>
      rfl
  | cons c t inductionHypothesis =>
      rw [List.forall_mem_cons] at bare
      obtain ⟨noDouble, noSingle, noBreak⟩ := isBare_iff.mp bare.1
      have staysCode : Spot.step .code c = .code := by
        rw [Spot.step, Spot.behindCode, if_neg noDouble, if_neg noSingle]
      rw [Closed, Spot.run_cons noBreak, staysCode]
      exact inductionHypothesis bare.2

theorem closed_margin
    (level : Nat) :
    Closed (margin level) := by
  refine closed_of_isBare fun c member => ?_
  rw [List.eq_of_mem_replicate member]
  rfl

/-- Empty lines are no lines of code. -/
theorem codeLines_replicate
    (breaks : Nat)
    (rest : Text) :
    codeLines (List.replicate breaks (CodePoint.ofChar '\n') ++ rest) = codeLines rest := by
  induction breaks with
  | zero =>
      rfl
  | succ breaks inductionHypothesis =>
      exact inductionHypothesis

/-- What is written on a line is a line of code between its margin and its line breaks. -/
theorem codeLines_line
    {t : Text}
    (closed : Closed t)
    (notEmpty : t ≠ [])
    (level breaks : Nat)
    (rest : Text) :
    codeLines (line level t (breaks + 1) ++ rest) = (margin level ++ t) :: codeLines rest := by
  have isLine :
      line level t (breaks + 1) ++ rest =
        (margin level ++ t) ++ CodePoint.ofChar '\n' ::
          (List.replicate breaks (CodePoint.ofChar '\n') ++ rest) := by
    simp only [line, margin, List.replicate_succ, List.append_assoc, List.cons_append]
  have isWritten : (margin level ++ t).isEmpty = false := by
    simpa using fun _ => notEmpty
  rw [isLine, codeLines, outerLines_append_cons ((closed_margin level).append closed) rfl,
    List.filter_cons, isWritten, ← codeLines_replicate breaks rest]
  rfl

/-- Texts one after another have their lines of code one after another. -/
theorem codeLines_flatMap
    {items : List α}
    {written : α → Text}
    {linesOf : α → List Text}
    (each :
      ∀ item ∈ items, ∀ rest, codeLines (written item ++ rest) = linesOf item ++ codeLines rest)
    (rest : Text) :
    codeLines (items.flatMap written ++ rest) = items.flatMap linesOf ++ codeLines rest := by
  induction items with
  | nil =>
      rfl
  | cons item items inductionHypothesis =>
      rw [List.forall_mem_cons] at each
      rw [List.flatMap_cons, List.flatMap_cons, List.append_assoc, List.append_assoc, each.1,
        inductionHypothesis each.2]

/-!
## Literals
-/

namespace Spot

/-- A backslash and what follows it do not end a text. -/
theorem run_escaped
    {quote : CodePoint}
    (isQuote : quote = '\'' ∨ quote = '"')
    (c : CodePoint)
    (t : Text) :
    run (.text quote) ('\\' :: c :: t) = run (.text quote) t := by
  have escapes : step (.text quote) '\\' = .escape quote := by
    rcases isQuote with rfl | rfl <;> rfl
  rw [run_cons_of_not_endsLine rfl, escapes, run_cons_of_not_endsLine rfl, step]

/-- A text goes on with code points that are neither its quote nor a backslash. -/
theorem run_text
    {quote : CodePoint}
    {t : Text}
    (plain : ∀ c ∈ t, c ≠ quote ∧ c ≠ '\\') :
    run (.text quote) t = some (.text quote) := by
  induction t with
  | nil =>
      rfl
  | cons c t inductionHypothesis =>
      rw [List.forall_mem_cons] at plain
      have staysText : step (.text quote) c = .text quote := by
        rw [step, behindText, if_neg plain.1.1, if_neg plain.1.2]
      rw [run_cons_of_not_endsLine rfl, staysText]
      exact inductionHypothesis plain.2

theorem run_hexPadded
    {quote : CodePoint}
    (isQuote : quote = '\'' ∨ quote = '"')
    (width n : Nat) :
    run (.text quote) (Text.hexPadded width n) = some (.text quote) := by
  have everyDigit :
      ∀ digit : Fin 16,
        Octets.hexDigit digit.val ≠ '\'' ∧ Octets.hexDigit digit.val ≠ '"' ∧
          Octets.hexDigit digit.val ≠ '\\' := by
    decide
  induction width generalizing n with
  | zero =>
      rfl
  | succ width inductionHypothesis =>
      obtain ⟨noSingle, noDouble, noBackslash⟩ := everyDigit ⟨n % 16, Nat.mod_lt n (by decide)⟩
      rw [Text.hexPadded, run_append_of_some (inductionHypothesis (n / 16))]
      refine run_text (List.forall_mem_singleton.mpr ⟨?_, noBackslash⟩)
      rcases isQuote with rfl | rfl
      · exact noSingle
      · exact noDouble

theorem run_quoteOne
    {quote : CodePoint}
    (isQuote : quote = '\'' ∨ quote = '"')
    (c : CodePoint) :
    run (.text quote) (Text.quoteOne quote c) = some (.text quote) := by
  rw [Text.quoteOne]
  split
  case isTrue =>
    exact run_escaped isQuote c []
  case isFalse plain =>
    rw [not_or] at plain
    split_ifs
    · exact run_escaped isQuote 'n' []
    · exact run_escaped isQuote 'r' []
    · exact run_escaped isQuote 't' []
    · exact run_text (List.forall_mem_singleton.mpr plain)
    · exact (run_escaped isQuote 'x' _).trans (run_hexPadded isQuote 2 c.val)
    · exact (run_escaped isQuote 'u' _).trans (run_hexPadded isQuote 4 c.val)
    · exact (run_escaped isQuote 'U' _).trans (run_hexPadded isQuote 8 c.val)

theorem run_quoteEach
    {quote : CodePoint}
    (isQuote : quote = '\'' ∨ quote = '"')
    (t : Text) :
    run (.text quote) (t.flatMap (Text.quoteOne quote)) = some (.text quote) := by
  induction t with
  | nil =>
      rfl
  | cons c t inductionHypothesis =>
      rw [List.flatMap_cons, run_append_of_some (run_quoteOne isQuote c), inductionHypothesis]

/-- Behind one double quote a text goes on with anything but another one. -/
theorem run_opened_cons
    {c : CodePoint}
    (noQuote : c ≠ '"')
    (t : Text) :
    run .opened (c :: t) = run (.text '"') (c :: t) := by
  have goesOn : step .opened c = step (.text '"') c := by
    rw [step, step, if_neg noQuote]
  rw [run_cons_of_not_endsLine rfl, run_cons_of_not_endsLine rfl, goesOn]

end Spot

/-- What is written for a code point does not begin with the quote. -/
theorem exists_quoteOne_eq_cons
    {quote : CodePoint}
    (isQuote : quote = '\'' ∨ quote = '"')
    (c : CodePoint) :
    ∃ first more, Text.quoteOne quote c = first :: more ∧ first ≠ quote := by
  have noBackslash : CodePoint.ofChar '\\' ≠ quote := by
    rcases isQuote with rfl | rfl <;> decide
  rw [Text.quoteOne]
  split
  case isTrue =>
    exact ⟨_, _, rfl, noBackslash⟩
  case isFalse plain =>
    rw [not_or] at plain
    split_ifs
    case pos => exact ⟨_, _, rfl, noBackslash⟩
    case pos => exact ⟨_, _, rfl, noBackslash⟩
    case pos => exact ⟨_, _, rfl, noBackslash⟩
    case pos => exact ⟨_, _, rfl, plain.1⟩
    all_goals exact ⟨_, _, rfl, noBackslash⟩

theorem closed_quoted
    (t : Text) :
    Closed t.quoted := by
  have isQuote := Literal.Reader.isQuote_quoteFor t
  have ofContent := Spot.run_quoteEach isQuote t
  rw [Closed, Text.quoted]
  rcases isQuote with isSingle | isDouble
  · rw [isSingle] at ofContent ⊢
    exact Spot.run_append_of_some ofContent _
  · -- Double quotes are in use for a text with an apostrophe, so that it is not empty.
    cases t with
    | nil =>
        cases isDouble
    | cons c t =>
        rw [isDouble] at ofContent ⊢
        obtain ⟨first, more, isFirst, noQuote⟩ := exists_quoteOne_eq_cons (Or.inr rfl) c
        rw [List.flatMap_cons, isFirst, List.cons_append] at ofContent ⊢
        have closes := Spot.run_append_of_some ofContent [CodePoint.ofChar '"']
        rw [List.cons_append, ← Spot.run_opened_cons noQuote] at closes
        exact closes

/-- A plain text between double quotes is closed. -/
theorem closed_inQuotes
    {t : Text}
    (notEmpty : t ≠ [])
    (plain : t.IsPlain) :
    Closed (inQuotes t) := by
  have noQuotes : ∀ c ∈ t, c ≠ '"' ∧ c ≠ '\\' :=
    fun c member => CodePoint.isPlain_iff.mp (plain c member)
  obtain ⟨first, more, rfl⟩ := List.exists_cons_of_ne_nil notEmpty
  have closes := Spot.run_append_of_some (Spot.run_text noQuotes) [CodePoint.ofChar '"']
  rw [List.cons_append, ← Spot.run_opened_cons (noQuotes first List.mem_cons_self).1] at closes
  exact closes

/-- Hexadecimal digits between double quotes are closed in front of what is no quote. -/
theorem closed_inQuotes_digits
    {t : Text}
    (areDigits : ∀ c ∈ t, Names.isSmallHexDigit c = true)
    {c : CodePoint}
    (bare : isBare c = true)
    {more : Text}
    (closed : Closed (c :: more)) :
    Closed (inQuotes t ++ c :: more) := by
  by_cases isEmpty : t = []
  · obtain ⟨noQuote, -, noBreak⟩ := isBare_iff.mp bare
    have isCode : Spot.step .emptied c = Spot.step .code c := if_neg noQuote
    have ofEmptied : Spot.emptied.run (c :: more) = Spot.code.run (c :: more) := by
      rw [Spot.run_cons noBreak, Spot.run_cons noBreak, isCode]
    rw [isEmpty]
    exact ofEmptied.trans closed
  · refine (closed_inQuotes isEmpty fun d member => ?_).append closed
    obtain ⟨-, noQuote, noBackslash, -⟩ := plain_of_isSmallHexDigit (areDigits d member)
    exact CodePoint.isPlain_iff.mpr ⟨noQuote, noBackslash⟩

theorem closed_join
    {parts : List Text}
    (each : ∀ part ∈ parts, Closed part) :
    Closed (Text.join ", " parts) := by
  induction parts with
  | nil =>
      rfl
  | cons first others inductionHypothesis =>
      rw [List.forall_mem_cons] at each
      cases others with
      | nil =>
          rw [Text.join_singleton]
          exact each.1
      | cons second others =>
          rw [Text.join_cons_cons]
          exact each.1.append (Closed.append (by rfl) (inductionHypothesis each.2))

theorem closed_dict
    {fields : List (Text × Value)}
    (each : ∀ field ∈ fields, Closed field.2.literal) :
    Closed (Value.dict (Entries.ofFields fields)).literal := by
  have ofEntries : Closed (Text.join ", " (Value.entryLiterals (Entries.ofFields fields))) := by
    refine closed_join ?_
    rw [Literal.entryLiterals_eq_map]
    refine List.forall_mem_map.mpr fun field member => ?_
    exact (closed_quoted field.1).between (by rfl) (each field member)
  exact Closed.between (by rfl) ofEntries (by rfl)

/-- The literal of a value that describes a parameter is closed. -/
theorem closed_literal
    {v : Value}
    (plain : v.IsPlain) :
    Closed v.literal := by
  induction plain with
  | text t =>
      exact closed_quoted t
  | bool b =>
      cases b <;> rfl
  | @list vs _ inductionHypothesis =>
      have ofMembers : Closed (Text.join ", " (Value.literals vs)) := by
        refine closed_join ?_
        rw [Literal.literals_eq_map]
        exact List.forall_mem_map.mpr inductionHypothesis
      exact Closed.between (by rfl) ofMembers (by rfl)
  | dict _ _ inductionHypothesis =>
      exact closed_dict inductionHypothesis

/-!
## Documentation
-/

theorem isPlain_of_mapM_hexDigit?
    {t : Text}
    {digits : List Nat}
    (areDigits : t.mapM CodePoint.hexDigit? = some digits) :
    t.IsPlain := by
  induction t generalizing digits with
  | nil =>
      exact nofun
  | cons first t inductionHypothesis =>
      simp only [List.mapM_cons, Option.bind_eq_bind, Option.bind_eq_some_iff] at areDigits
      obtain ⟨_, isDigit, _, others, -⟩ := areDigits
      refine List.forall_mem_cons.mpr
        ⟨CodePoint.isPlain_iff.mpr ⟨?_, ?_⟩, inductionHypothesis others⟩
      all_goals
        rintro rfl
        cases isDigit

theorem exists_digits_of_dropHexEscape?
    {width : Nat}
    {t rest : Text}
    (dropped : dropHexEscape? width t = some rest) :
    ∃ digits : Text, t = digits ++ rest ∧ digits.IsPlain := by
  rw [dropHexEscape?] at dropped
  obtain ⟨values, areValues, dropped⟩ := Option.bind_eq_some_iff.mp dropped
  split at dropped
  case isTrue =>
    cases dropped
    exact ⟨t.take width, (List.take_append_drop width t).symm, isPlain_of_mapM_hexDigit? areValues⟩
  case isFalse =>
    cases dropped

/-- An escape is a code point and plain digits behind it. -/
theorem exists_escape_of_dropEscape?
    {t rest : Text}
    (dropped : dropEscape? t = some rest) :
    ∃ (c : CodePoint) (digits : Text), t = c :: (digits ++ rest) ∧ digits.IsPlain := by
  cases t with
  | nil =>
      cases dropped
  | cons c t =>
      have ofBehind : ∃ digits : Text, t = digits ++ rest ∧ digits.IsPlain := by
        rw [dropEscape?] at dropped
        split_ifs at dropped
        · exact exists_digits_of_dropHexEscape? dropped
        · exact exists_digits_of_dropHexEscape? dropped
        · exact exists_digits_of_dropHexEscape? dropped
        · exact ⟨[], Option.some.inj dropped, nofun⟩
      obtain ⟨digits, rfl, plain⟩ := ofBehind
      exact ⟨c, digits, rfl, plain⟩

namespace Spot

/-- A long text goes on with what is plain. -/
theorem run_long
    {t : Text}
    (plain : t.IsPlain) :
    run (.long 0) t = some (.long 0) := by
  induction t with
  | nil =>
      rfl
  | cons c t inductionHypothesis =>
      obtain ⟨isPlain, othersPlain⟩ := List.forall_mem_cons.mp plain
      obtain ⟨noQuote, noBackslash⟩ := CodePoint.isPlain_iff.mp isPlain
      have staysLong : step (.long 0) c = .long 0 := by
        rw [step, if_neg noQuote, if_neg noBackslash]
      rw [run_cons_of_not_endsLine rfl, staysLong]
      exact inductionHypothesis othersPlain

/-- An escape does not end a long text. -/
theorem run_long_escaped
    {digits : Text}
    (plain : digits.IsPlain)
    (quotes : Nat)
    (c : CodePoint)
    (rest : Text) :
    run (.long quotes) ('\\' :: c :: (digits ++ rest)) = run (.long 0) rest := by
  have escapes : step (.long quotes) '\\' = .longEscape := rfl
  rw [run_cons_of_not_endsLine rfl, escapes, run_cons_of_not_endsLine rfl, step,
    run_append_of_some (run_long plain)]

/-- Where the scan stands in front of a text that is checked as documentation: in code, or in
a long text behind quotes, and the quotes that are left to end it do not follow. -/
inductive Checks : (isInside : Bool) → Spot → Text → Prop where
  | code {t : Text} : Checks false .code t
  | begun {t : Text} : Checks true (.long 0) t
  | long {quotes left : Nat} {t : Text} :
      quotes + left = 3 → ¬ List.replicate left (CodePoint.ofChar '"') <+: t →
        Checks true (.long quotes) t

/-- Triple quotes begin a long text, or they end it. -/
theorem Checks.tripleQuotes
    {isInside : Bool}
    {spot : Spot}
    {rest : Text}
    (checks : Checks isInside spot (Text.tripleQuotes ++ rest)) :
    ∃ behind, Checks (! isInside) behind rest ∧
      ∀ others, run spot (Text.tripleQuotes ++ others) = run behind others := by
  cases checks with
  | code =>
      exact ⟨.long 0, .begun, fun others => rfl⟩
  | begun =>
      exact ⟨.code, .code, fun others => rfl⟩
  | @long quotes left _ sum notEnded =>
      have areQuotes :
          Text.tripleQuotes =
            List.replicate left (CodePoint.ofChar '"') ++
              List.replicate quotes (CodePoint.ofChar '"') := by
        rw [List.replicate_append_replicate, Nat.add_comm, sum]
        rfl
      rw [areQuotes, List.append_assoc] at notEnded
      exact absurd (List.prefix_append _ _) notEnded

/-- Any other code point of a long text leads on in it. -/
theorem Checks.cons
    {spot : Spot}
    {c : CodePoint}
    {rest : Text}
    (checks : Checks true spot (c :: rest))
    (noQuotes : ¬ Text.tripleQuotes <+: c :: rest)
    (noBackslash : c ≠ '\\') :
    ∃ behind, Checks true behind rest ∧ ∀ others, run spot (c :: others) = run behind others := by
  obtain ⟨quotes, left, rfl, sum, notEnded⟩ :
      ∃ quotes left, spot = .long quotes ∧ quotes + left = 3 ∧
        ¬ List.replicate left (CodePoint.ofChar '"') <+: c :: rest := by
    cases checks with
    | begun => exact ⟨0, 3, rfl, rfl, noQuotes⟩
    | long sum notEnded => exact ⟨_, _, rfl, sum, notEnded⟩
  have steps :
      ∀ others : Text, run (.long quotes) (c :: others) = run (step (.long quotes) c) others :=
    fun others => run_cons_of_not_endsLine rfl c others
  by_cases isQuote : c = '"'
  · -- One more quote stands, and the quotes that are left are one less.
    cases left with
    | zero =>
        exact absurd List.nil_prefix notEnded
    | succ left =>
        rw [isQuote, List.replicate_succ, List.cons_prefix_cons, not_and] at notEnded
        have notEndedYet := notEnded rfl
        have notLast : quotes ≠ 2 := by
          rintro rfl
          obtain rfl : left = 0 := by
            omega
          exact notEndedYet List.nil_prefix
        refine ⟨.long (quotes + 1), .long (by omega) notEndedYet, fun others => ?_⟩
        rw [steps, step, if_pos isQuote, if_neg notLast]
  · refine ⟨.long 0, .begun, fun others => ?_⟩
    rw [steps, step, if_neg isQuote, if_neg noBackslash]

end Spot

/-- What a documentation that passes its check begins with: triple quotes, an escape or another
code point of a text, a blank between texts, or the line break at its end. -/
theorem checkQuotedLine_cases
    {fuel : Nat}
    {isInside : Bool}
    {t : Text}
    (checked : checkQuotedLine (fuel + 1) isInside t = .ok ()) :
    (∃ rest, t = Text.tripleQuotes ++ rest ∧ checkQuotedLine fuel (! isInside) rest = .ok ()) ∨
      (isInside = true ∧ ∃ rest behind : Text, t = CodePoint.ofChar '\\' :: rest ∧
        dropEscape? rest = some behind ∧ checkQuotedLine fuel true behind = .ok ()) ∨
      (isInside = true ∧ ∃ (c : CodePoint) (rest : Text), t = c :: rest ∧
        ¬ Text.tripleQuotes <+: t ∧ c ≠ '\\' ∧ checkQuotedLine fuel true rest = .ok ()) ∨
      (isInside = false ∧ ∃ (c : CodePoint) (rest : Text), t = c :: rest ∧
        (c = ' ' ∨ c = '\t') ∧ checkQuotedLine fuel false rest = .ok ()) ∨
      (isInside = false ∧ t = Text.ofString "\n") := by
  rw [checkQuotedLine.eq_def] at checked
  dsimp only at checked
  split at checked
  case h_1 rest dropped =>
    exact Or.inl ⟨rest, Text.eq_append_of_dropStart? dropped, checked⟩
  case h_2 notDropped =>
    have noQuotes : ¬ Text.tripleQuotes <+: t := by
      rintro ⟨rest, rfl⟩
      rw [Text.tripleQuotes, Text.dropStart?_append] at notDropped
      cases notDropped
    cases t with
    | nil =>
        cases checked
    | cons c rest =>
        dsimp only at checked
        split_ifs at checked with inside isBackslash isBreak isLast isBlank
        · split at checked
          case h_1 behind dropped =>
            exact Or.inr (Or.inl ⟨inside, rest, behind, by rw [isBackslash], dropped, checked⟩)
          case h_2 =>
            cases checked
        · exact Or.inr (Or.inr (Or.inl ⟨inside, c, rest, rfl, noQuotes, isBackslash, checked⟩))
        · rw [isBreak, List.isEmpty_iff.mp isLast]
          exact Or.inr (Or.inr (Or.inr (Or.inr ⟨eq_false_of_ne_true inside, rfl⟩)))
        · exact Or.inr (Or.inr (Or.inr (Or.inl
            ⟨eq_false_of_ne_true inside, c, rest, rfl, isBlank, checked⟩)))

/-- A documentation that is nothing but texts between triple quotes is closed in front of the
line break behind it. -/
theorem exists_closed_of_checkQuotedLine
    {fuel : Nat}
    {isInside : Bool}
    {spot : Spot}
    {t : Text}
    (checks : Spot.Checks isInside spot t)
    (checked : checkQuotedLine fuel isInside t = .ok ()) :
    ∃ others : Text, t = others ++ "\n" ∧ spot.run others = some .code := by
  induction fuel generalizing isInside spot t with
  | zero =>
      cases checked
  | succ fuel inductionHypothesis =>
      rcases checkQuotedLine_cases checked with
        ⟨rest, rfl, checkedRest⟩ | ⟨rfl, rest, behind, rfl, dropped, checkedRest⟩ |
          ⟨rfl, c, rest, rfl, noQuotes, noBackslash, checkedRest⟩ |
            ⟨rfl, c, rest, rfl, isBlank, checkedRest⟩ | ⟨rfl, rfl⟩
      · obtain ⟨behind, checksRest, runs⟩ := checks.tripleQuotes
        obtain ⟨others, rfl, closes⟩ := inductionHypothesis checksRest checkedRest
        exact ⟨Text.tripleQuotes ++ others, (List.append_assoc _ _ _).symm,
          (runs others).trans closes⟩
      · obtain ⟨c, digits, rfl, plain⟩ := exists_escape_of_dropEscape? dropped
        obtain ⟨others, rfl, closes⟩ := inductionHypothesis .begun checkedRest
        obtain ⟨quotes, rfl⟩ : ∃ quotes, spot = .long quotes := by
          cases checks <;> exact ⟨_, rfl⟩
        refine ⟨'\\' :: c :: (digits ++ others), ?_,
          (Spot.run_long_escaped plain quotes c others).trans closes⟩
        simp only [List.cons_append, List.append_assoc]
      · obtain ⟨behind, checksRest, runs⟩ := checks.cons noQuotes noBackslash
        obtain ⟨others, rfl, closes⟩ := inductionHypothesis checksRest checkedRest
        exact ⟨c :: others, rfl, (runs others).trans closes⟩
      · cases checks
        obtain ⟨others, rfl, closes⟩ := inductionHypothesis .code checkedRest
        refine ⟨c :: others, rfl, ?_⟩
        rcases isBlank with rfl | rfl <;> exact closes
      · cases checks
        exact ⟨[], rfl, rfl⟩

/-- The line with the documentation of a method. -/
def documentationLine (binding : FunctionBinding) (kind : MethodKind) : Text :=
  indentation ++ Text.tripleQuotes ++ documented binding kind ++ Text.tripleQuotes

/-- A documentation that passes its check is one line of code. -/
theorem codeLines_documentation
    {binding : FunctionBinding}
    {kind : MethodKind}
    (checked :
      checkQuotedLine ((documentation binding kind).length + 1) false
          (documentation binding kind) =
        .ok ())
    (rest : Text) :
    codeLines (documentation binding kind ++ rest) =
      documentationLine binding kind :: codeLines rest := by
  obtain ⟨text, isText, closed⟩ := exists_closed_of_checkQuotedLine .code checked
  rw [documentation_eq] at isText
  obtain rfl : documentationLine binding kind = text := List.append_cancel_right isText
  have isLine :
      documentation binding kind ++ rest = line 0 (documentationLine binding kind) 1 ++ rest := by
    rw [documentation_eq]
    rfl
  have notEmpty : documentationLine binding kind ≠ [] := nofun
  rw [isLine, codeLines_line closed notEmpty 0 0]
  rfl

end Source

end ContractBindings
