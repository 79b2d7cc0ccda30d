import ContractBindings.Text.Utf8

namespace ContractBindings

/-!
# Keccak-256

The sponge over 25 lanes of 64 bits with a rate of 136 bytes and the padding
of the first submission, whose first padding bit follows the message
directly.
-/

namespace Keccak

/-- The 25 lanes; the lane in column `x` and row `y` has the index `x + 5 * y`. -/
abbrev Lanes := Vector UInt64 25

/-- The bits of a lane moved up by `n` places, those past the end coming in below. -/
def rotate (x : UInt64) (n : UInt64) : UInt64 :=
  (x <<< n) ||| (x >>> (64 - n))

/-- How far each lane is rotated. -/
def offsets : Vector UInt64 25 :=
  #v[0, 1, 62, 28, 27, 36, 44, 6, 55, 20, 3, 10, 43, 25, 39, 41, 45, 15, 21, 8, 18, 2, 61, 56, 14]

/-- The constants of the 24 rounds. -/
def roundConstants : List UInt64 :=
  [0x0000000000000001, 0x0000000000008082, 0x800000000000808A, 0x8000000080008000,
    0x000000000000808B, 0x0000000080000001, 0x8000000080008081, 0x8000000000008009,
    0x000000000000008A, 0x0000000000000088, 0x0000000080008009, 0x000000008000000A,
    0x000000008000808B, 0x800000000000008B, 0x8000000000008089, 0x8000000000008003,
    0x8000000000008002, 0x8000000000000080, 0x000000000000800A, 0x800000008000000A,
    0x8000000080008081, 0x8000000000008080, 0x0000000080000001, 0x8000000080008008]

/-- The lane in a column and a row, both counted modulo five. -/
def lane (s : Lanes) (x y : Nat) : UInt64 :=
  s.get ⟨x % 5 + 5 * (y % 5), by omega⟩

/-- The parity of a column. -/
def parity (s : Lanes) (x : Nat) : UInt64 :=
  lane s x 0 ^^^ lane s x 1 ^^^ lane s x 2 ^^^ lane s x 3 ^^^ lane s x 4

/-- Every lane takes up the parities of the columns beside it. -/
def theta (s : Lanes) : Lanes :=
  let parities : Vector UInt64 5 := Vector.ofFn fun x => parity s x.val
  Vector.ofFn fun i =>
    s[i] ^^^ parities.get ⟨(i.val + 4) % 5, by omega⟩ ^^^
      rotate (parities.get ⟨(i.val + 1) % 5, by omega⟩) 1

/-- Lanes are rotated and change places. -/
def rhoPi (s : Lanes) : Lanes :=
  Vector.ofFn fun i =>
    let x := i.val % 5
    let y := i.val / 5
    let source := (x + 3 * y) % 5 + 5 * x
    rotate (s.get ⟨source, by omega⟩) (offsets.get ⟨source, by omega⟩)

/-- Every lane is mixed with the two to its right. -/
def chi (s : Lanes) : Lanes :=
  Vector.ofFn fun i =>
    let x := i.val % 5
    let y := i.val / 5
    s[i] ^^^ (~~~ lane s (x + 1) y &&& lane s (x + 2) y)

/-- One round. -/
def round (s : Lanes) (constant : UInt64) : Lanes :=
  let mixed := chi (rhoPi (theta s))
  mixed.set 0 (mixed[0] ^^^ constant)

/-- All rounds. -/
def permute (s : Lanes) : Lanes :=
  roundConstants.foldl round s

/-- The number of bytes taken in at once. -/
def rate : Nat := 136

/-- The bytes that fill the last block: a one bit, zeros, and a one bit at the very end. -/
def padding (length : Nat) : Octets :=
  let room := rate - length % rate
  if room = 1 then [0x81] else 0x01 :: List.replicate (room - 2) 0x00 ++ [0x80]

/-- Eight bytes as a number, least significant first. -/
def laneOf (bytes : Octets) : UInt64 :=
  bytes.foldr (fun b lane => lane <<< 8 ||| b.toUInt64) 0

/-- The eight bytes of a lane, least significant first. -/
def bytesOf (lane : UInt64) : Octets :=
  (List.range 8).map fun i => (lane >>> (UInt64.ofNat (8 * i))).toUInt8

/-- Takes in one block. -/
def absorb (s : Lanes) (block : Octets) : Lanes :=
  permute (Vector.ofFn fun i =>
    if i.val < 17 then s[i] ^^^ laneOf ((block.drop (8 * i.val)).take 8) else s[i])

/-- The blocks of a padded message, of which there are `count`. -/
def blocks : (count : Nat) → (message : Octets) → List Octets
  | 0, _ => []
  | count + 1, message => message.take rate :: blocks count (message.drop rate)

/-- The 32 bytes of the digest. -/
def digest (message : Octets) : Octets :=
  let padded := message ++ padding message.length
  let final := (blocks (padded.length / rate) padded).foldl absorb (Vector.replicate 25 0)
  (List.range 4).flatMap fun i => bytesOf (lane final i 0)

end Keccak

end ContractBindings
