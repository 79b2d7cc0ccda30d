import ContractBindings.Number.Rounding
import ContractBindings.Text.Utf8

namespace ContractBindings

/-!
# BLAKE2b

The unkeyed hash with a digest of up to 64 bytes.  The length of the digest
goes into the first word of the initial state, so a short digest is not the
beginning of a long one.
-/

namespace Blake2b

/-- The eight words that are chained from block to block. -/
abbrev Chain := Vector UInt64 8

/-- The sixteen words that are mixed. -/
abbrev Work := Vector UInt64 16

/-- The initial words. -/
def initial : Chain :=
  #v[0x6A09E667F3BCC908, 0xBB67AE8584CAA73B, 0x3C6EF372FE94F82B, 0xA54FF53A5F1D36F1,
    0x510E527FADE682D1, 0x9B05688C2B3E6C1F, 0x1F83D9ABFB41BD6B, 0x5BE0CD19137E2179]

/-- The order in which the ten kinds of rounds take the message words. -/
def schedule : List (Vector (Fin 16) 16) :=
  [#v[0, 1, 2, 3, 4, 5, 6, 7, 8, 9, 10, 11, 12, 13, 14, 15],
    #v[14, 10, 4, 8, 9, 15, 13, 6, 1, 12, 0, 2, 11, 7, 5, 3],
    #v[11, 8, 12, 0, 5, 2, 15, 13, 10, 14, 3, 6, 7, 1, 9, 4],
    #v[7, 9, 3, 1, 13, 12, 11, 14, 2, 6, 5, 10, 4, 0, 15, 8],
    #v[9, 0, 5, 7, 2, 4, 10, 15, 14, 1, 11, 12, 6, 8, 3, 13],
    #v[2, 12, 6, 10, 0, 11, 8, 3, 4, 13, 7, 5, 15, 14, 1, 9],
    #v[12, 5, 1, 15, 14, 13, 4, 10, 0, 7, 6, 3, 9, 2, 8, 11],
    #v[13, 11, 7, 14, 12, 1, 3, 9, 5, 0, 15, 4, 8, 6, 2, 10],
    #v[6, 15, 14, 9, 11, 3, 0, 8, 12, 2, 13, 7, 1, 4, 10, 5],
    #v[10, 2, 8, 4, 7, 6, 1, 5, 15, 11, 9, 14, 3, 12, 13, 0]]

/-- The bits of a word moved down by `n` places, those past the end coming in above. -/
def rotate (x : UInt64) (n : UInt64) : UInt64 :=
  (x >>> n) ||| (x <<< (64 - n))

/-- Mixes four words with two words of the message. -/
def mix (v : Work) (a b c d : Fin 16) (x y : UInt64) : Work :=
  let v := v.set a (v[a] + v[b] + x)
  let v := v.set d (rotate (v[d] ^^^ v[a]) 32)
  let v := v.set c (v[c] + v[d])
  let v := v.set b (rotate (v[b] ^^^ v[c]) 24)
  let v := v.set a (v[a] + v[b] + y)
  let v := v.set d (rotate (v[d] ^^^ v[a]) 16)
  let v := v.set c (v[c] + v[d])
  v.set b (rotate (v[b] ^^^ v[c]) 63)

/-- One round: the columns, then the diagonals. -/
def round (message : Work) (v : Work) (order : Vector (Fin 16) 16) : Work :=
  let word (i : Fin 16) : UInt64 := message[order[i]]
  let v := mix v 0 4 8 12 (word 0) (word 1)
  let v := mix v 1 5 9 13 (word 2) (word 3)
  let v := mix v 2 6 10 14 (word 4) (word 5)
  let v := mix v 3 7 11 15 (word 6) (word 7)
  let v := mix v 0 5 10 15 (word 8) (word 9)
  let v := mix v 1 6 11 12 (word 10) (word 11)
  let v := mix v 2 7 8 13 (word 12) (word 13)
  mix v 3 4 9 14 (word 14) (word 15)

/-- Eight bytes as a number, least significant first. -/
def wordOf (bytes : Octets) : UInt64 :=
  bytes.foldr (fun b word => word <<< 8 ||| b.toUInt64) 0

/-- The eight bytes of a word, least significant first. -/
def bytesOf (word : UInt64) : Octets :=
  (List.range 8).map fun i => (word >>> (UInt64.ofNat (8 * i))).toUInt8

/-- Takes in one block of 128 bytes, `count` being the number of bytes up to its end. -/
def compress (h : Chain) (block : Octets) (count : Nat) (last : Bool) : Chain :=
  let message : Work := Vector.ofFn fun i => wordOf ((block.drop (8 * i.val)).take 8)
  let v : Work := h ++ initial
  let v := v.set 12 (v[12] ^^^ UInt64.ofNat count)
  let v := v.set 13 (v[13] ^^^ UInt64.ofNat (count / twoTo 64))
  let v := if last then v.set 14 (~~~ v[14]) else v
  let v := (schedule ++ schedule.take 2).foldl (round message) v
  Vector.ofFn fun i => h[i] ^^^ v.get ⟨i.val, by omega⟩ ^^^ v.get ⟨i.val + 8, by omega⟩

/-- Takes in the last block, filled up with zero bytes. -/
def finish (h : Chain) (count : Nat) (message : Octets) : Chain :=
  compress h (message ++ List.replicate (128 - message.length) 0) (count + message.length) true

/-- The blocks before the last one and the last one itself, of which all but the
last are full. -/
def chain (h : Chain) (count : Nat) : (fuel : Nat) → (message : Octets) → Chain
  | 0, message => finish h count message
  | fuel + 1, message =>
      if message.length ≤ 128 then finish h count message
      else
        chain (compress h (message.take 128) (count + 128) false) (count + 128) fuel
          (message.drop 128)

/-- The digest of a message, `size` bytes long. -/
def digest (size : Nat) (message : Octets) : Octets :=
  let h := initial.set 0 (initial[0] ^^^ 0x01010000 ^^^ UInt64.ofNat size)
  let final := chain h 0 (message.length / 128) message
  (final.toList.flatMap bytesOf).take size

end Blake2b

end ContractBindings
