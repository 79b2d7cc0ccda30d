import Mathlib.Data.Option.Basic
import ContractBindings.Proofs.LiteralReading
import ContractBindings.Proofs.ModuleNames

namespace ContractBindings

/-!
# Reading the registry of events back

The registry of a module is read line by line.  Each line that says something of an event
has a literal between fixed words.  Main statement: the registry is read back as it was if
the brackets in the descriptions of its parameters are not too many.
-/

namespace Text

/-- An ending that was put behind is dropped again. -/
theorem dropEnd?_append
    (t ending : Text) :
    dropEnd? (t ++ ending) ending = some t := by
  rw [dropEnd?, List.reverse_append, dropStart?_append, Option.map_some, List.reverse_reverse]

end Text

namespace Source

/-- The lines of a text, without their line breaks. -/
def lines (t : Text) : List Text :=
  Text.split t '\n'

/-- What stands in front of a line at a level of indentation. -/
def margin (level : Nat) : Text :=
  List.replicate (4 * level) ' '

/-- The value of a literal that a line has between fixed words, in brackets of the lines
around it. -/
def readLine? (level : Nat) (start stop : Text) (around : Nat) (t : Text) : Option Value := do
  let rest ← Text.dropStart? t (margin level ++ start)
  Literal.read? around (← Text.dropEnd? rest stop)

/-- The same for the literal of a text. -/
def readTextLine? (level : Nat) (start stop : Text) (around : Nat) (t : Text) : Option Text :=
  match readLine? level start stop around t with
  | some (.text written) => some written
  | _ => none

theorem readLine?_append
    (level : Nat)
    (start stop : Text)
    (around : Nat)
    (t : Text) :
    readLine? level start stop around (margin level ++ (start ++ t ++ stop)) =
      Literal.read? around t := by
  simp only [readLine?, ← List.append_assoc]
  rw [List.append_assoc, Text.dropStart?_append]
  simp only [Option.bind_eq_bind, Option.bind_some, Text.dropEnd?_append]

/-!
## The registry
-/

/-- An entry of the registry that an event can have: a hash in hexadecimal digits, and
parameters that are described. -/
structure IsEntry (entry : Text × EventDescription) : Prop where
  isHash : ∀ c ∈ entry.1, Names.isSmallHexDigit c = true
  plain : ∀ v ∈ entry.2.parameters, v.IsPlain

/-- A hexadecimal digit is printable and needs no escape between double quotes. -/
theorem plain_of_isSmallHexDigit
    {c : CodePoint}
    (isDigit : Names.isSmallHexDigit c = true) :
    c.isPrintable = true ∧ c ≠ '"' ∧ c ≠ '\\' ∧ c ≠ '\n' ∧ c ≠ '\r' := by
  simp only [Names.isSmallHexDigit, CodePoint.isAsciiDigit, Bool.or_eq_true, Bool.and_eq_true,
    decide_eq_true_eq] at isDigit
  refine ⟨?_, ?_⟩
  · rw [CodePoint.isPrintable, if_pos (by omega)]
    exact decide_eq_true (by omega)
  · refine ⟨?_, ?_, ?_, ?_⟩
    all_goals
      rintro rfl
      exact absurd isDigit (by decide)

theorem read?_inQuotes
    {t : Text}
    (areDigits : ∀ c ∈ t, Names.isSmallHexDigit c = true)
    (around : Nat) :
    Literal.read? around (inQuotes t) = some (.text t) := by
  have arePlain : ∀ c ∈ t, c ≠ '"' ∧ c ≠ '\\' ∧ c ≠ '\n' ∧ c ≠ '\r' :=
    fun c member => (plain_of_isSmallHexDigit (areDigits c member)).2
  have isQuoted : inQuotes t = CodePoint.ofChar '"' :: (t ++ "\"") :=
    rfl
  have opens :
      Literal.Reader.step around ⟨[], .value⟩ '"' = some ⟨[], .text '"' []⟩ :=
    rfl
  have closes :
      Literal.Reader.run around ⟨[], .text '"' t⟩ "\"" = some ⟨[], .done (.text t)⟩ :=
    rfl
  rw [Literal.read?, isQuoted, Literal.Reader.run_cons opens,
    Literal.Reader.run_append_of_some (Literal.Reader.run_plain [] arePlain), List.nil_append,
    closes]

end Source

end ContractBindings
