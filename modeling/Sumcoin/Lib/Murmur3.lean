import Mathlib

/-!
# MurmurHash3, x86 32-bit variant

The 32-bit MurmurHash3: the message is read as little-endian 32-bit blocks, each mixed into
the state `h1`, then the one to three trailing bytes, then the length, and last the
finalization mix.  Written over `UInt32` with its wrap-around arithmetic, to be evaluated.

## Main definitions

* `Murmur3.mixK1`, `Murmur3.mixBody`, `Murmur3.mixTail`, `Murmur3.fmix`.
* `Murmur3.murmurHash3`: the hash of a byte string under a seed.
-/

namespace Murmur3

/-- Rotation to the left by `r` bits, `0 < r < 32`. -/
def rotl32 (x r : UInt32) : UInt32 := (x <<< r) ||| (x >>> (32 - r))

/-- The scrambling of one block before it enters the state. -/
def mixK1 (k1 : UInt32) : UInt32 := rotl32 (k1 * 0xcc9e2d51) 15 * 0x1b873593

/-- A little-endian 32-bit block. -/
def readLE32 (b0 b1 b2 b3 : UInt8) : UInt32 :=
  b0.toUInt32 ||| (b1.toUInt32 <<< 8) ||| (b2.toUInt32 <<< 16) ||| (b3.toUInt32 <<< 24)

/-- The body: every whole block, returning the state and the trailing bytes. -/
def mixBody (h1 : UInt32) : List UInt8 → UInt32 × List UInt8
  | b0 :: b1 :: b2 :: b3 :: rest => mixBody (rotl32 (h1 ^^^ mixK1 (readLE32 b0 b1 b2 b3)) 13 * 5 + 0xe6546b64) rest
  | tail => (h1, tail)

/-- The tail: the `switch` on the length modulo four falls through from the third trailing
byte down to the first. -/
def mixTail (h1 : UInt32) : List UInt8 → UInt32
  | [] => h1
  | [t0] => h1 ^^^ mixK1 t0.toUInt32
  | [t0, t1] => h1 ^^^ mixK1 ((t1.toUInt32 <<< 8) ^^^ t0.toUInt32)
  | t0 :: t1 :: t2 :: _ => h1 ^^^ mixK1 ((t2.toUInt32 <<< 16) ^^^ (t1.toUInt32 <<< 8) ^^^ t0.toUInt32)

/-- The finalization mix. -/
def fmix (h1 : UInt32) : UInt32 :=
  let h1 := h1 ^^^ (h1 >>> 16)
  let h1 := h1 * 0x85ebca6b
  let h1 := h1 ^^^ (h1 >>> 13)
  let h1 := h1 * 0xc2b2ae35
  h1 ^^^ (h1 >>> 16)

/-- `MurmurHash3(nHashSeed, vDataToHash)`. -/
def murmurHash3 (nHashSeed : UInt32) (vDataToHash : List UInt8) : UInt32 :=
  let (h1, tail) := mixBody nHashSeed vDataToHash
  fmix (mixTail h1 tail ^^^ vDataToHash.length.toUInt32)

example : murmurHash3 0xFBA4C795 [] = 0x6a396f08 := by decide
example : murmurHash3 0 [0x00, 0x11, 0x22, 0x33, 0x44] = 0xe2301fa8 := by decide

end Murmur3
