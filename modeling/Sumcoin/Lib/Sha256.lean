import Mathlib

/-!
# SHA-256 (FIPS 180-4)

The hash function as the standard defines it, written to be evaluated: words are
`UInt32`, the message is a list of bytes, and every loop is structural (the message
schedule and the rounds over lists, the blocks over an explicit count).  The kernel
evaluates it directly, so a statement about the digest of a fixed message is closed
by `decide +kernel`.

## Main definitions

* `Sha256.compress`: one application of the compression function.
* `Sha256.padding`, `Sha256.sha256`.

## Main statements

* `Sha256.length_sha256`: a digest has 32 bytes.
-/

namespace Sha256

/-- The round constants `K₀ … K₆₃`. -/
def k : List UInt32 := [
  0x428a2f98, 0x71374491, 0xb5c0fbcf, 0xe9b5dba5, 0x3956c25b, 0x59f111f1, 0x923f82a4, 0xab1c5ed5,
  0xd807aa98, 0x12835b01, 0x243185be, 0x550c7dc3, 0x72be5d74, 0x80deb1fe, 0x9bdc06a7, 0xc19bf174,
  0xe49b69c1, 0xefbe4786, 0x0fc19dc6, 0x240ca1cc, 0x2de92c6f, 0x4a7484aa, 0x5cb0a9dc, 0x76f988da,
  0x983e5152, 0xa831c66d, 0xb00327c8, 0xbf597fc7, 0xc6e00bf3, 0xd5a79147, 0x06ca6351, 0x14292967,
  0x27b70a85, 0x2e1b2138, 0x4d2c6dfc, 0x53380d13, 0x650a7354, 0x766a0abb, 0x81c2c92e, 0x92722c85,
  0xa2bfe8a1, 0xa81a664b, 0xc24b8b70, 0xc76c51a3, 0xd192e819, 0xd6990624, 0xf40e3585, 0x106aa070,
  0x19a4c116, 0x1e376c08, 0x2748774c, 0x34b0bcb5, 0x391c0cb3, 0x4ed8aa4a, 0x5b9cca4f, 0x682e6ff3,
  0x748f82ee, 0x78a5636f, 0x84c87814, 0x8cc70208, 0x90befffa, 0xa4506ceb, 0xbef9a3f7, 0xc67178f2]

/-- The initial hash value `H⁽⁰⁾`. -/
def h0 : List UInt32 :=
  [0x6a09e667, 0xbb67ae85, 0x3c6ef372, 0xa54ff53a, 0x510e527f, 0x9b05688c, 0x1f83d9ab, 0x5be0cd19]

/-- `ROTR n x`. -/
def rotr (x n : UInt32) : UInt32 := (x >>> n) ||| (x <<< (32 - n))

/-- `Σ₀`. -/
def bigSigma0 (x : UInt32) : UInt32 := rotr x 2 ^^^ rotr x 13 ^^^ rotr x 22
/-- `Σ₁`. -/
def bigSigma1 (x : UInt32) : UInt32 := rotr x 6 ^^^ rotr x 11 ^^^ rotr x 25
/-- `σ₀`. -/
def smallSigma0 (x : UInt32) : UInt32 := rotr x 7 ^^^ rotr x 18 ^^^ (x >>> 3)
/-- `σ₁`. -/
def smallSigma1 (x : UInt32) : UInt32 := rotr x 17 ^^^ rotr x 19 ^^^ (x >>> 10)

/-- `Ch(x, y, z)`. -/
def ch (x y z : UInt32) : UInt32 := (x &&& y) ^^^ (~~~x &&& z)
/-- `Maj(x, y, z)`. -/
def maj (x y z : UInt32) : UInt32 := (x &&& y) ^^^ (x &&& z) ^^^ (y &&& z)

/-- The big-endian words of a block. -/
def wordsBE : List UInt8 → List UInt32
  | b0 :: b1 :: b2 :: b3 :: rest =>
    (b0.toUInt32 <<< 24 ||| b1.toUInt32 <<< 16 ||| b2.toUInt32 <<< 8 ||| b3.toUInt32) ::
      wordsBE rest
  | _ => []

/-- The message schedule, `n` more words: the list holds `W[t-1], …, W[0]`, newest
first, so `W[t-2]`, `W[t-7]`, `W[t-15]`, `W[t-16]` are at positions 1, 6, 14, 15. -/
def schedule : Nat → List UInt32 → List UInt32
  | 0, w => w
  | n + 1, w =>
    schedule n ((smallSigma1 (w.getD 1 0) + w.getD 6 0 + smallSigma0 (w.getD 14 0) +
      w.getD 15 0) :: w)

/-- The eight working variables. -/
structure Working where
  a : UInt32
  b : UInt32
  c : UInt32
  d : UInt32
  e : UInt32
  f : UInt32
  g : UInt32
  h : UInt32

/-- One round, with constant `kt` and schedule word `wt`. -/
def round (s : Working) (kt wt : UInt32) : Working :=
  let t1 := s.h + bigSigma1 s.e + ch s.e s.f s.g + kt + wt
  let t2 := bigSigma0 s.a + maj s.a s.b s.c
  ⟨t1 + t2, s.a, s.b, s.c, s.d + t1, s.e, s.f, s.g⟩

/-- The rounds, one per pair of constant and schedule word. -/
def rounds : List UInt32 → List UInt32 → Working → Working
  | kt :: ks, wt :: ws, s => rounds ks ws (round s kt wt)
  | _, _, s => s

/-- The compression function: the next hash value from the current one and a block. -/
def compress (hs : List UInt32) (block : List UInt8) : List UInt32 :=
  match hs with
  | [a, b, c, d, e, f, g, h] =>
    let w := (schedule 48 (wordsBE block).reverse).reverse
    let s := rounds k w ⟨a, b, c, d, e, f, g, h⟩
    [a + s.a, b + s.b, c + s.c, d + s.d, e + s.e, f + s.f, g + s.g, h + s.h]
  | _ => hs

/-- The padded message: a one bit, zeros up to 56 bytes modulo 64, and the length in
bits as a big-endian 64-bit number. -/
def padding (msg : List UInt8) : List UInt8 :=
  let len := msg.length
  let zeros := if len % 64 ≤ 55 then 55 - len % 64 else 119 - len % 64
  msg ++ [0x80] ++ List.replicate zeros 0 ++
    (List.range 8).reverse.map fun i => ((len * 8 / 256 ^ i) % 256).toUInt8

/-- The hash value after `n` more blocks of `msg`. -/
def blocks : Nat → List UInt32 → List UInt8 → List UInt32
  | 0, hs, _ => hs
  | n + 1, hs, msg =>
    if msg.isEmpty then hs else blocks n (compress hs (msg.take 64)) (msg.drop 64)

/-- The digest: the words of the final hash value, big-endian. -/
def bytesBE (hs : List UInt32) : List UInt8 :=
  hs.flatMap fun (x : UInt32) => [(x >>> 24).toUInt8, (x >>> 16).toUInt8, (x >>> 8).toUInt8,
    x.toUInt8]

/-- `SHA-256(msg)`. -/
def sha256 (msg : List UInt8) : List UInt8 :=
  let p := padding msg
  bytesBE (blocks p.length h0 p)

/-! ## Length of the digest -/

theorem length_compress {hs : List UInt32} (h : hs.length = 8) (block : List UInt8) :
    (compress hs block).length = 8 := by
  match hs, h with
  | [_, _, _, _, _, _, _, _], _ => rfl

theorem length_blocks (n : Nat) {hs : List UInt32} (h : hs.length = 8) (msg : List UInt8) :
    (blocks n hs msg).length = 8 := by
  induction n generalizing hs msg with
  | zero => exact h
  | succ n ih =>
    rw [blocks]
    split
    case isTrue => exact h
    case isFalse => exact ih (length_compress h _) _

theorem length_bytesBE (hs : List UInt32) : (bytesBE hs).length = 4 * hs.length := by
  induction hs with
  | nil => rfl
  | cons x hs ih =>
    simp only [bytesBE, List.flatMap_cons, List.length_append, List.length_cons,
      List.length_nil] at ih ⊢
    omega

theorem length_sha256 (msg : List UInt8) : (sha256 msg).length = 32 := by
  rw [sha256, length_bytesBE, length_blocks _ rfl]

/-- The one-block test vector of FIPS 180-4, "abc". -/
example : sha256 [0x61, 0x62, 0x63] =
    [0xba, 0x78, 0x16, 0xbf, 0x8f, 0x01, 0xcf, 0xea, 0x41, 0x41, 0x40, 0xde, 0x5d, 0xae, 0x22,
     0x23, 0xb0, 0x03, 0x61, 0xa3, 0x96, 0x17, 0x7a, 0x9c, 0xb4, 0x10, 0xff, 0x61, 0xf2, 0x00,
     0x15, 0xad] := by
  decide +kernel

/-- The two-block test vector, "abcdbcdecdefdefgefghfghighijhijkijkljklmklmnlmnomnopnopq". -/
example : sha256 ("abcdbcdecdefdefgefghfghighijhijkijkljklmklmnlmnomnopnopq".toList.map
      fun c => c.toNat.toUInt8) =
    [0x24, 0x8d, 0x6a, 0x61, 0xd2, 0x06, 0x38, 0xb8, 0xe5, 0xc0, 0x26, 0x93, 0x0c, 0x3e, 0x60,
     0x39, 0xa3, 0x3c, 0xe4, 0x59, 0x64, 0xff, 0x21, 0x67, 0xf6, 0xec, 0xed, 0xd4, 0x19, 0xdb,
     0x06, 0xc1] := by
  decide +kernel

end Sha256
