import ContractBindings.Config.Path
import ContractBindings.Fault
import ContractBindings.Text.Hex

namespace ContractBindings

/-!
# Path texts that lead nowhere

No file has a zero in its path, and none a lone surrogate other than those that
stand for a byte.  A path text is followed part by part, and the first part that
is so refuses the whole text.
-/

/-- Why a text is no path. -/
inductive PathFailure where
  /-- It has a zero in it. -/
  | zero
  /-- It has surrogates in it from one position up to another one. -/
  | surrogates (first : CodePoint) (start stop : Nat)
  deriving DecidableEq

namespace PathFailure

/-- The message of a failure. -/
def message : PathFailure → Text
  | .zero => "embedded null byte"
  | .surrogates first start stop =>
      let place : Text :=
        if stop = start + 1 then
          " '\\u" ++ Octets.toHex (Octets.ofNat 2 first.val) ++ "' in position " ++ Text.ofNat start
        else "s in position " ++ Text.ofNat start ++ "-" ++ Text.ofNat (stop - 1)
      "'utf-8' codec can't encode character" ++ place ++ ": surrogates not allowed"

/-- The kind of a failure. -/
def fault : PathFailure → Fault
  | .zero => .badValue
  | .surrogates _ _ _ => .unencodable

end PathFailure

namespace PathText

/-- A surrogate that stands for no byte. -/
def isStray (c : CodePoint) : Bool :=
  c.isSurrogate && ! (0xDC80 ≤ c.val && c.val ≤ 0xDCFF)

/-- What is wrong with a text as it is. -/
def check (t : Text) : Except PathFailure Unit :=
  match t.dropWhile (! isStray ·) with
  | first :: rest =>
      let start := t.length - rest.length - 1
      .error (.surrogates first start (start + 1 + (rest.takeWhile CodePoint.isSurrogate).length))
  | [] => if t.any (·.val = 0) then .error .zero else .ok ()

/-- Follows the parts of a path text and checks what leads up to each. -/
def checkParts (start : Text) : (before : List Text) → (texts : List Text) →
    Except PathFailure Unit
  | _, [] => .ok ()
  | before, text :: texts =>
      if text = [] ∨ text = "." then checkParts start before texts
      else if text = ".." then
        match before.getLast? with
        | none => checkParts start (if start.isEmpty then [text] else []) texts
        | some last =>
            checkParts start (if last = ".." then before ++ [text] else before.dropLast) texts
      else do
        let before := before ++ [text]
        check (start ++ Text.join "/" before)
        checkParts start before texts

/-- The path that a text stands for in a directory, if it can be one. -/
def resolve (directory : AbsolutePath) (t : Text) : Except PathFailure AbsolutePath := do
  checkParts (if Text.startsWith t "/" then "/" else []) [] (Text.split t '/')
  return directory.resolve t

end PathText

end ContractBindings
