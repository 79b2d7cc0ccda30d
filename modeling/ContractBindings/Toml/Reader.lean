import ContractBindings.Config.Setting
import ContractBindings.Toml.Scalar

namespace ContractBindings

/-!
# Reading TOML

A document is a sequence of lines with keys and values, in tables that
headers open, alone or as elements of arrays.  No table is opened twice, no
value is replaced, and what is written inline stays as it is.
-/

namespace Toml

/-- A key with the keys of the tables around it. -/
abbrev KeyPath := List Text

/-!
## Keys and values
-/

/-- A code point of a key without quotes. -/
def isBareKey (c : CodePoint) : Bool :=
  c.isAsciiWord || c = '-'

/-- Reads one part of a key. -/
def readKeyPart (t : Text) : Option (Text × Text) :=
  match t with
  | [] => none
  | c :: rest =>
      if isBareKey c then some (t.takeWhile isBareKey, t.dropWhile isBareKey)
      else if c = '"' then restOfBasic (rest.length + 1) rest
      else if c = '\'' then restOfLiteral rest
      else none

/-- Reads a key of parts with dots between them, and the blanks behind it. -/
def readKey : (fuel : Nat) → (t : Text) → Option (KeyPath × Text)
  | 0, _ => none
  | fuel + 1, t => do
      let (part, rest) ← readKeyPart t
      let rest := rest.dropWhile isBlank
      match Text.dropStart? rest "." with
      | none => some ([part], rest)
      | some rest =>
          let (parts, rest) ← readKey fuel (rest.dropWhile isBlank)
          some (part :: parts, rest)

/-- What follows a comment, if one stands there.  The line break is left. -/
def dropComment (t : Text) : Except Failure Text :=
  match Text.dropStart? t "#" with
  | none => .ok t
  | some rest =>
      let comment := rest.takeWhile fun c => c ≠ ('\n' : CodePoint)
      if comment.any isControl then .error .malformed else .ok (rest.drop comment.length)

/-- What follows blanks, line breaks and comments. -/
def dropSpace : (fuel : Nat) → (t : Text) → Except Failure Text
  | 0, t => .ok t
  | fuel + 1, t => do
      let inner := t.dropWhile isBlankOrBreak
      let rest ← dropComment inner
      if rest.length = inner.length then return rest else dropSpace fuel rest

/-- Changes the table that a path leads to, and makes the tables on the way
that are not there.  A path through an array goes on in its last table, if that
is allowed. -/
def changeTable (throughLists : Bool) (change : Keyed Setting → Option (Keyed Setting)) :
    KeyPath → Keyed Setting → Option (Keyed Setting)
  | [], entries => change entries
  | key :: path, entries =>
      match entries.get? key with
      | none => do
          let inner ← changeTable throughLists change path []
          some (entries.put key (.table inner))
      | some (.table inner) => do
          let inner ← changeTable throughLists change path inner
          some (entries.put key (.table inner))
      | some (.list settings) =>
          match throughLists, settings.reverse with
          | true, .table inner :: before => do
              let inner ← changeTable throughLists change path inner
              some (entries.put key (.list (before.reverse ++ [.table inner])))
          | _, _ => none
      | some _ => none

/-- Adds a value under a new key. -/
def addNew (key : Text) (value : Setting) (entries : Keyed Setting) : Option (Keyed Setting) :=
  match entries.get? key with
  | some _ => none
  | none => some (entries.put key value)

/-- Whether a value was written inline as a table or a list. -/
def isInline : Setting → Bool
  | .table _ => true
  | .list _ => true
  | _ => false

/-- Whether a path is one of the given ones or leads below one of them. -/
def isBelow (paths : List KeyPath) (path : KeyPath) : Bool :=
  paths.any fun other => other.isPrefixOf path

/-- Adds a key and value to an inline table, of which some parts are closed. -/
def addInline (closed : List KeyPath) (path : KeyPath) (value : Setting)
    (entries : Keyed Setting) : Option (Keyed Setting) :=
  match path.getLast? with
  | none => none
  | some key =>
      if isBelow closed path then none
      else changeTable false (addNew key value) path.dropLast entries

mutual

/-- Reads a value where there is room for so many values in each other, its own one
included.  The fuel bounds the steps. -/
def readValue : (fuel room : Nat) → (t : Text) → Except Failure (Setting × Text)
  | 0, _, _ => .error .malformed
  | fuel + 1, room, t =>
      match t with
      | [] => .error (if room = 0 then .tooDeep else .malformed)
      | c :: rest =>
          if room = 0 then .error .tooDeep
          else if c = '"' ∨ c = '\'' then do
            let (text, rest) ← required (readText t)
            return (.text text, rest)
          else if c = '[' then do
            let (settings, rest) ← readElements fuel (room - 1) rest
            return (.list settings, rest)
          else if c = '\x7b' then do
            let (entries, rest) ← readPairs fuel (room - 1) [] [] rest
            return (.table entries, rest)
          else do
            return (.scalar, ← dropScalar t)

/-- Reads the elements of an array up to its end.  A comma may stand behind the
last one. -/
def readElements : (fuel room : Nat) → (t : Text) → Except Failure (List Setting × Text)
  | 0, _, _ => .error .malformed
  | fuel + 1, room, t => do
      let t ← dropSpace t.length t
      match Text.dropStart? t "]" with
      | some rest => return ([], rest)
      | none => do
          let (value, rest) ← readValue fuel room t
          let rest ← dropSpace rest.length rest
          match Text.dropStart? rest "]" with
          | some rest => return ([value], rest)
          | none => do
              let rest ← required (Text.dropStart? rest ",")
              let (values, rest) ← readElements fuel room rest
              return (value :: values, rest)

/-- Reads the pairs of an inline table up to its end.  A comma may stand behind
the last one. -/
def readPairs : (fuel room : Nat) → (closed : List KeyPath) → (entries : Keyed Setting) →
    (t : Text) → Except Failure (Keyed Setting × Text)
  | 0, _, _, _, _ => .error .malformed
  | fuel + 1, room, closed, entries, t => do
      let t ← dropSpace t.length t
      match Text.dropStart? t "\x7d" with
      | some rest => return (entries, rest)
      | none => do
          let (path, rest) ← required (readKey (t.length + 1) t)
          let rest ← required (Text.dropStart? rest "=")
          let (value, rest) ← readValue fuel room (rest.dropWhile isBlank)
          let entries ← required (addInline closed path value entries)
          let rest ← dropSpace rest.length rest
          match Text.dropStart? rest "\x7d" with
          | some rest => return (entries, rest)
          | none => do
              let rest ← required (Text.dropStart? rest ",")
              let closed := if isInline value then path :: closed else closed
              readPairs fuel room closed entries rest

end

/-!
## Documents
-/

/-- What is known of a document after some of its lines. -/
structure Progress where
  entries : Keyed Setting
  /-- The table that keys are added to. -/
  current : KeyPath
  /-- Tables that no header may open any more. -/
  opened : List KeyPath
  /-- Tables that belong to these from the next header on. -/
  pending : List KeyPath
  /-- Values that were written inline. -/
  closed : List KeyPath

namespace Progress

/-- Nothing read. -/
def start : Progress :=
  ⟨[], [], [], [], []⟩

/-- The end of a table, at the next header. -/
def endTable (progress : Progress) : Progress :=
  { progress with opened := progress.pending ++ progress.opened, pending := [] }

/-- Opens a table. -/
def openTable (progress : Progress) (path : KeyPath) : Option Progress :=
  if progress.opened.contains path || isBelow progress.closed path then none
  else do
    let entries ← changeTable true some path progress.entries
    some { progress with entries, current := path, opened := path :: progress.opened }

/-- Adds an empty table to an array of tables. -/
def appendTable (key : Text) (entries : Keyed Setting) : Option (Keyed Setting) :=
  match entries.get? key with
  | none => some (entries.put key (.list [.table []]))
  | some (.list settings) => some (entries.put key (.list (settings ++ [.table []])))
  | some _ => none

/-- Opens one more table of an array.  The tables below it can be opened anew. -/
def openElement (progress : Progress) (path : KeyPath) : Option Progress :=
  match path.getLast? with
  | none => none
  | some key =>
      if isBelow progress.closed path then none
      else do
        let entries ← changeTable true (appendTable key) path.dropLast progress.entries
        let outside (other : KeyPath) : Bool := ! path.isPrefixOf other
        some { progress with
          entries
          current := path
          opened := path :: progress.opened.filter outside
          closed := progress.closed.filter outside }

/-- The tables that a key with dots goes through, from the current table on. -/
def tablesOnTheWay (progress : Progress) (path : KeyPath) : List KeyPath :=
  (List.range (path.length - 1)).map fun i => progress.current ++ path.take (i + 1)

/-- Adds a key and value to the current table. -/
def addPair (progress : Progress) (path : KeyPath) (value : Setting) : Option Progress :=
  match path.getLast? with
  | none => none
  | some key =>
      let onTheWay := progress.tablesOnTheWay path
      let table := progress.current ++ path.dropLast
      if onTheWay.any progress.opened.contains || isBelow progress.closed table then none
      else do
        let entries ← changeTable true (addNew key value) table progress.entries
        some { progress with
          entries
          pending := onTheWay ++ progress.pending
          closed :=
            if isInline value then (progress.current ++ path) :: progress.closed
            else progress.closed }

end Progress

/-- The number of values that can stand in each other. -/
def greatestDepth : Nat := 1001

/-- Reads the statement of a line, if there is one. -/
def readStatement (progress : Progress) (t : Text) : Except Failure (Progress × Text) :=
  match t with
  | [] => .ok (progress, [])
  | c :: _ =>
      if c = '\n' ∨ c = '#' then .ok (progress, t)
      else
        match Text.dropStart? t "[[" with
        | some rest => do
            let (path, rest) ← required (readKey (t.length + 1) (rest.dropWhile isBlank))
            let progress ← required (progress.endTable.openElement path)
            return (progress, ← required (Text.dropStart? rest "]]"))
        | none =>
            match Text.dropStart? t "[" with
            | some rest => do
                let (path, rest) ← required (readKey (t.length + 1) (rest.dropWhile isBlank))
                let progress ← required (progress.endTable.openTable path)
                return (progress, ← required (Text.dropStart? rest "]"))
            | none => do
                let (path, rest) ← required (readKey (t.length + 1) t)
                let rest ← required (Text.dropStart? rest "=")
                let (value, rest) ← readValue (2 * t.length + 2) greatestDepth
                  (rest.dropWhile isBlank)
                return (← required (progress.addPair path value), rest)

/-- Reads lines to the end of the text. -/
def readLines : (fuel : Nat) → Progress → Text → Except Failure Progress
  | 0, _, _ => .error .malformed
  | fuel + 1, progress, t => do
      let (progress, rest) ← readStatement progress (t.dropWhile isBlank)
      let rest ← dropComment (rest.dropWhile isBlank)
      match rest with
      | [] => return progress
      | c :: rest => if c = '\n' then readLines fuel progress rest else .error .malformed

/-- Reads a document, which UTF-8 has to write.  A line may end in a carriage return
and a line feed. -/
def read (t : Text) : Except Failure (Keyed Setting) :=
  if Text.isScalar t then
    let t := Text.replaceAll t "\r\n" "\n"
    (readLines (t.length + 1) .start t).map (·.entries)
  else .error .malformed

end Toml

end ContractBindings
