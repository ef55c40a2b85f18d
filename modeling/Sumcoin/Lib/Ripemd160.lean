import Mathlib

/-!
# RIPEMD-160

The hash function as its designers define it, written to be evaluated like
`Sha256`: two lines of eighty steps each over the sixteen little-endian words of a
block, then a combination of both lines with the chaining value.  The tables give, for
each step, the word it reads and the rotation it applies; a step of the round `j / 16`
uses that round's boolean function and constant, the right line taking the functions
in reverse order.

## Main definitions

* `Ripemd160.compress`, `Ripemd160.ripemd160`.
-/

namespace Ripemd160

/-- The boolean function of round `j` of the left line. -/
def f : Nat → UInt32 → UInt32 → UInt32 → UInt32
  | 0, x, y, z => x ^^^ y ^^^ z
  | 1, x, y, z => (x &&& y) ||| (~~~x &&& z)
  | 2, x, y, z => (x ||| ~~~y) ^^^ z
  | 3, x, y, z => (x &&& z) ||| (y &&& ~~~z)
  | _, x, y, z => x ^^^ (y ||| ~~~z)

/-- The constants of the five rounds of the left line. -/
def kLeft : List UInt32 := [0x00000000, 0x5A827999, 0x6ED9EBA1, 0x8F1BBCDC, 0xA953FD4E]

/-- The constants of the five rounds of the right line. -/
def kRight : List UInt32 := [0x50A28BE6, 0x5C4DD124, 0x6D703EF3, 0x7A6D76E9, 0x00000000]

/-- The word each step of the left line reads. -/
def rLeft : List Nat := [
  0, 1, 2, 3, 4, 5, 6, 7, 8, 9, 10, 11, 12, 13, 14, 15,
  7, 4, 13, 1, 10, 6, 15, 3, 12, 0, 9, 5, 2, 14, 11, 8,
  3, 10, 14, 4, 9, 15, 8, 1, 2, 7, 0, 6, 13, 11, 5, 12,
  1, 9, 11, 10, 0, 8, 12, 4, 13, 3, 7, 15, 14, 5, 6, 2,
  4, 0, 5, 9, 7, 12, 2, 10, 14, 1, 3, 8, 11, 6, 15, 13]

/-- The rotation of each step of the left line. -/
def sLeft : List UInt32 := [
  11, 14, 15, 12, 5, 8, 7, 9, 11, 13, 14, 15, 6, 7, 9, 8,
  7, 6, 8, 13, 11, 9, 7, 15, 7, 12, 15, 9, 11, 7, 13, 12,
  11, 13, 6, 7, 14, 9, 13, 15, 14, 8, 13, 6, 5, 12, 7, 5,
  11, 12, 14, 15, 14, 15, 9, 8, 9, 14, 5, 6, 8, 6, 5, 12,
  9, 15, 5, 11, 6, 8, 13, 12, 5, 12, 13, 14, 11, 8, 5, 6]

/-- The word each step of the right line reads. -/
def rRight : List Nat := [
  5, 14, 7, 0, 9, 2, 11, 4, 13, 6, 15, 8, 1, 10, 3, 12,
  6, 11, 3, 7, 0, 13, 5, 10, 14, 15, 8, 12, 4, 9, 1, 2,
  15, 5, 1, 3, 7, 14, 6, 9, 11, 8, 12, 2, 10, 0, 4, 13,
  8, 6, 4, 1, 3, 11, 15, 0, 5, 12, 2, 13, 9, 7, 10, 14,
  12, 15, 10, 4, 1, 5, 8, 7, 6, 2, 13, 14, 0, 3, 9, 11]

/-- The rotation of each step of the right line. -/
def sRight : List UInt32 := [
  8, 9, 9, 11, 13, 15, 15, 5, 7, 7, 8, 11, 14, 14, 12, 6,
  9, 13, 15, 7, 12, 8, 9, 11, 7, 7, 12, 7, 6, 15, 13, 11,
  9, 7, 15, 11, 8, 6, 6, 14, 12, 13, 5, 14, 13, 13, 7, 5,
  15, 5, 8, 11, 14, 14, 6, 14, 6, 9, 12, 9, 12, 5, 15, 8,
  8, 5, 12, 9, 12, 5, 14, 6, 8, 13, 6, 5, 15, 13, 11, 11]

/-- `rol(x, i)`. -/
def rol (x i : UInt32) : UInt32 := (x <<< i) ||| (x >>> (32 - i))

/-- The five registers of a line. -/
structure Line where
  a : UInt32
  b : UInt32
  c : UInt32
  d : UInt32
  e : UInt32

/-- One step with boolean value `fv`, word `x`, constant `k` and rotation `r`: the source
updates `a` and `c` in place and renames the registers, which is this shift. -/
def step (s : Line) (fv x k r : UInt32) : Line :=
  ⟨s.e, rol (s.a + fv + x + k) r + s.e, s.b, rol s.c 10, s.d⟩

/-- The little-endian words of a block. -/
def wordsLE : List UInt8 → List UInt32
  | b0 :: b1 :: b2 :: b3 :: rest =>
    (b0.toUInt32 ||| (b1.toUInt32 <<< 8) ||| (b2.toUInt32 <<< 16) ||| (b3.toUInt32 <<< 24)) ::
      wordsLE rest
  | _ => []

/-- The steps `j, j + 1, …` of the left line (`left = true`) or the right one. -/
def line (left : Bool) (w : List UInt32) : Nat → List Nat → List UInt32 → Line → Line
  | j, r :: rs, sh :: shs, s =>
    let rnd := j / 16
    let fv := if left then f rnd s.b s.c s.d else f (4 - rnd) s.b s.c s.d
    let k := (if left then kLeft else kRight).getD rnd 0
    line left w (j + 1) rs shs (step s fv (w.getD r 0) k sh)
  | _, _, _, s => s

/-- `Transform(s, chunk)`. -/
def compress (hs : List UInt32) (block : List UInt8) : List UInt32 :=
  match hs with
  | [h0, h1, h2, h3, h4] =>
    let w := wordsLE block
    let l := line true w 0 rLeft sLeft ⟨h0, h1, h2, h3, h4⟩
    let r := line false w 0 rRight sRight ⟨h0, h1, h2, h3, h4⟩
    [h1 + l.c + r.d, h2 + l.d + r.e, h3 + l.e + r.a, h4 + l.a + r.b, h0 + l.b + r.c]
  | hs => hs

/-- `Initialize(s)`. -/
def h0 : List UInt32 := [0x67452301, 0xEFCDAB89, 0x98BADCFE, 0x10325476, 0xC3D2E1F0]

/-- The message, `0x80`, zeros to 56 modulo 64, and the bit length as eight
little-endian bytes. -/
def padding (msg : List UInt8) : List UInt8 :=
  let len := msg.length
  let zeros := if len % 64 ≤ 55 then 55 - len % 64 else 119 - len % 64
  msg ++ [0x80] ++ List.replicate zeros 0 ++
    (List.range 8).map fun i => ((len * 8 / 256 ^ i) % 256).toUInt8

/-- The chaining value after `n` more blocks of `msg`. -/
def blocks : Nat → List UInt32 → List UInt8 → List UInt32
  | 0, hs, _ => hs
  | n + 1, hs, msg =>
    if msg.isEmpty then hs else blocks n (compress hs (msg.take 64)) (msg.drop 64)

/-- The digest: the words of the chaining value, little-endian. -/
def bytesLE (hs : List UInt32) : List UInt8 :=
  hs.flatMap fun (x : UInt32) => [x.toUInt8, (x >>> 8).toUInt8, (x >>> 16).toUInt8,
    (x >>> 24).toUInt8]

/-- `RIPEMD-160(msg)`. -/
def ripemd160 (msg : List UInt8) : List UInt8 :=
  let p := padding msg
  bytesLE (blocks p.length h0 p)

/-! ## Length of the digest -/

theorem length_compress {hs : List UInt32} (h : hs.length = 5) (block : List UInt8) :
    (compress hs block).length = 5 := by
  match hs, h with
  | [_, _, _, _, _], _ => rfl

theorem length_blocks (n : Nat) {hs : List UInt32} (h : hs.length = 5) (msg : List UInt8) :
    (blocks n hs msg).length = 5 := by
  induction n generalizing hs msg with
  | zero => exact h
  | succ n ih =>
    rw [blocks]
    split
    case isTrue => exact h
    case isFalse => exact ih (length_compress h _) _

/-- The test vector of the empty message. -/
example : ripemd160 [] =
    [0x9c, 0x11, 0x85, 0xa5, 0xc5, 0xe9, 0xfc, 0x54, 0x61, 0x28, 0x08, 0x97, 0x7e, 0xe8, 0xf5,
     0x48, 0xb2, 0x25, 0x8d, 0x31] := by
  decide +kernel

/-- The test vector "abc". -/
example : ripemd160 [0x61, 0x62, 0x63] =
    [0x8e, 0xb2, 0x08, 0xf7, 0xe0, 0x5d, 0x98, 0x7a, 0x9b, 0x04, 0x4a, 0x8e, 0x98, 0xc6, 0xb0,
     0x87, 0xf1, 0x5a, 0x0b, 0xfc] := by
  decide +kernel

end Ripemd160
