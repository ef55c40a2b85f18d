import Mathlib

/-!
# SipHash-2-4 on whole words

SipHash with two compression rounds per message word and four finalization rounds,
for a message made of whole 64-bit words: the state is four words keyed by `k0` and
`k1`, each word is absorbed by `compress`, and the last block carries the message length
in its top byte.  Written to be evaluated, over `UInt64` with its wrap-around addition.

## Main definitions

* `SipHash.sipRound`, `SipHash.compress`, `SipHash.finalize`.
* `SipHash.hashWords`: the hash of a message of `8 * ms.length` bytes.
* `SipHash.Hasher`, `SipHash.hashBytes`: the hash of any byte string, fed byte by byte.
-/

namespace SipHash

/-- The four words of the state. -/
structure State where
  v0 : UInt64
  v1 : UInt64
  v2 : UInt64
  v3 : UInt64
  deriving DecidableEq, Repr

/-- Rotation to the left by `b` bits, `0 < b < 64`. -/
def rotl (x b : UInt64) : UInt64 := (x <<< b) ||| (x >>> (64 - b))

/-- One `SIPROUND`. -/
def sipRound (s : State) : State :=
  let v0 := s.v0 + s.v1
  let v1 := rotl s.v1 13 ^^^ v0
  let v0 := rotl v0 32
  let v2 := s.v2 + s.v3
  let v3 := rotl s.v3 16 ^^^ v2
  let v0 := v0 + v3
  let v3 := rotl v3 21 ^^^ v0
  let v2 := v2 + v1
  let v1 := rotl v1 17 ^^^ v2
  let v2 := rotl v2 32
  ⟨v0, v1, v2, v3⟩

/-- The keyed initial state. -/
def init (k0 k1 : UInt64) : State :=
  ⟨0x736f6d6570736575 ^^^ k0, 0x646f72616e646f6d ^^^ k1, 0x6c7967656e657261 ^^^ k0,
    0x7465646279746573 ^^^ k1⟩

/-- Absorbing one message word: into `v3`, two rounds, then into `v0`. -/
def compress (s : State) (m : UInt64) : State :=
  let s := sipRound (sipRound { s with v3 := s.v3 ^^^ m })
  { s with v0 := s.v0 ^^^ m }

/-- The four finalization rounds and the folding of the state into one word. -/
def finalize (s : State) : UInt64 :=
  let s := sipRound (sipRound (sipRound (sipRound { s with v2 := s.v2 ^^^ 0xff })))
  s.v0 ^^^ s.v1 ^^^ s.v2 ^^^ s.v3

/-- SipHash-2-4 of the `8 * ms.length` bytes of the words `ms`: the words, then the last
block, which holds only the length in its top byte. -/
def hashWords (k0 k1 : UInt64) (ms : List UInt64) : UInt64 :=
  finalize (compress (ms.foldl compress (init k0 k1)) ((8 * ms.length).toUInt64 <<< 56))

/-! ## Byte strings -/

/-- A hasher fed byte by byte: the state, the bytes of the word being filled (`tmp`) and the
number of bytes written (`count`). -/
structure Hasher where
  v : State
  tmp : UInt64
  count : Nat
  deriving DecidableEq, Repr

namespace Hasher

/-- The keyed hasher before any byte. -/
def init (k0 k1 : UInt64) : Hasher := ⟨SipHash.init k0 k1, 0, 0⟩

/-- One byte: into `tmp` at its place in the word, and every eighth byte the whole word into
the state. -/
def writeByte (h : Hasher) (b : UInt8) : Hasher :=
  let t := h.tmp ||| (b.toUInt64 <<< (8 * (h.count % 8)).toUInt64)
  let c := h.count + 1
  if c % 8 = 0 then ⟨compress h.v t, 0, c⟩ else ⟨h.v, t, c⟩

/-- The bytes, one after the other. -/
def write (h : Hasher) (data : List UInt8) : Hasher := data.foldl writeByte h

/-- The last block, the partial word with the count in its top byte, and the finalization. -/
def finalize (h : Hasher) : UInt64 := SipHash.finalize (compress h.v (h.tmp ||| (h.count.toUInt64 <<< 56)))

end Hasher

/-- SipHash-2-4 of a byte string. -/
def hashBytes (k0 k1 : UInt64) (data : List UInt8) : UInt64 := ((Hasher.init k0 k1).write data).finalize

end SipHash
