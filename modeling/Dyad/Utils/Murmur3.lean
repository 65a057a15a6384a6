import Dyad.Words.Mixing
import Dyad.Utils.Paths

/-!
# The hash (`utils/murmur3.c`, `MurmurHash3_x64_128`)

The bins of a key and the hashes of the managed directories all come from this
function. It mixes a key into two words, a block of sixteen bytes at a time,
and what is left over in a `switch` with a `break` after each case. The words
are read as a little-endian machine reads them, and the length is one an `int`
holds.
-/

namespace Dyad

/-- `rotl64`. -/
def rotl64 (x : BitVec 64) (r : Nat) : BitVec 64 :=
  (x <<< r) ||| (x >>> (64 - r))

/-- `fmix64`. -/
def fmix64 (k : BitVec 64) : BitVec 64 :=
  let k := k ^^^ (k >>> 33)
  let k := k * 0xff51afd7ed558ccd
  let k := k ^^^ (k >>> 33)
  let k := k * 0xc4ceb9fe1a85ec53
  k ^^^ (k >>> 33)

/-- `c1`. -/
def mulC1 : BitVec 64 := 0x87c37b91114253d5

/-- `c2`. -/
def mulC2 : BitVec 64 := 0x4cf5ad432745937f

/-- `getblock`, of the data as an array of words. -/
def getblock (data : List (BitVec 8)) (i : Nat) : BitVec 64 :=
  Words.ofBytes 64 ((data.drop (8 * i)).take 8)

/-- What is done to `k1` before it goes into `h1`. -/
def mixK1 (k1 : BitVec 64) : BitVec 64 := rotl64 (k1 * mulC1) 31 * mulC2

/-- What is done to `k2` before it goes into `h2`. -/
def mixK2 (k2 : BitVec 64) : BitVec 64 := rotl64 (k2 * mulC2) 33 * mulC1

/-- `h1` and `h2`. -/
abbrev HashWords := BitVec 64 × BitVec 64

/-- What a round does to a word after a block went into it: rotated by `r`, the
other word and a constant added. -/
def mixWord (h : BitVec 64) (r : Nat) (other add : BitVec 64) :
    BitVec 64 :=
  (rotl64 h r + other) * 5 + add

/-- A round of the body. -/
def mixBlock (h : HashWords) (k1 k2 : BitVec 64) : HashWords :=
  let h1 := mixWord (h.1 ^^^ mixK1 k1) 27 h.2 0x52dce729
  let h2 := mixWord (h.2 ^^^ mixK2 k2) 31 h1 0x38495ab5
  (h1, h2)

/-- The body, over the indices of some blocks. -/
def mixBody (data : List (BitVec 8)) (is : List Nat) (h : HashWords) :
    HashWords :=
  is.foldl
    (fun h i => mixBlock h (getblock data (i * 2)) (getblock data (i * 2 + 1))) h

/-- A byte of the tail, as a word. -/
def tailByte (tail : List (BitVec 8)) (i : Nat) : BitVec 64 :=
  (tail.getD i 0).setWidth 64

/-- The `switch`: `h1` and `h2`, and the `k1` and `k2` it leaves, which nothing
reads after it. -/
def mixTail (tail : List (BitVec 8)) (h : HashWords) :
    Nat → HashWords × BitVec 64 × BitVec 64
  | 15 => (h, 0, tailByte tail 14 <<< 48)
  | 14 => (h, 0, tailByte tail 13 <<< 40)
  | 13 => (h, 0, tailByte tail 12 <<< 32)
  | 12 => (h, 0, tailByte tail 11 <<< 24)
  | 11 => (h, 0, tailByte tail 10 <<< 16)
  | 10 => (h, 0, tailByte tail 9 <<< 8)
  | 9 =>
    let k2 := mixK2 (tailByte tail 8)
    ((h.1, h.2 ^^^ k2), 0, k2)
  | 8 => (h, tailByte tail 7 <<< 56, 0)
  | 7 => (h, tailByte tail 6 <<< 48, 0)
  | 6 => (h, tailByte tail 5 <<< 40, 0)
  | 5 => (h, tailByte tail 4 <<< 32, 0)
  | 4 => (h, tailByte tail 3 <<< 24, 0)
  | 3 => (h, tailByte tail 2 <<< 16, 0)
  | 2 => (h, tailByte tail 1 <<< 8, 0)
  | 1 =>
    let k1 := mixK1 (tailByte tail 0)
    ((h.1 ^^^ k1, h.2), k1, 0)
  | _ => (h, 0, 0)

/-- The finalization. -/
def mixLength (len : Nat) (h : HashWords) : HashWords :=
  let h1 := h.1 ^^^ BitVec.ofNat 64 len
  let h2 := h.2 ^^^ BitVec.ofNat 64 len
  let h1 := h1 + h2
  let h2 := h2 + h1
  let h1 := fmix64 h1
  let h2 := fmix64 h2
  let h1 := h1 + h2
  let h2 := h2 + h1
  (h1, h2)

/-- `MurmurHash3_x64_128`. -/
def murmurHash3 (data : List (BitVec 8)) (seed : UInt32) : HashWords :=
  let len := data.length
  let nblocks := len / 16
  let h := mixBody data (List.range nblocks)
    (seed.toBitVec.setWidth 64, seed.toBitVec.setWidth 64)
  let tail := data.drop (nblocks * 16)
  mixLength len (mixTail tail h (len % 16)).1

/-- The bytes of a string. -/
def bytesOf (str : CString) : List (BitVec 8) :=
  str.map fun c => BitVec.ofNat 8 c.toNat

/-- `hash[0] ^ hash[1] ^ hash[2] ^ hash[3]`, of the words seen as four of 32
bits. -/
def murmurFold (str : CString) (seed : UInt32) : UInt32 :=
  let h := murmurHash3 (bytesOf str) seed
  .ofBitVec (h.1.setWidth 32 ^^^ (h.1 >>> 32).setWidth 32 ^^^
    h.2.setWidth 32 ^^^ (h.2 >>> 32).setWidth 32)

end Dyad
