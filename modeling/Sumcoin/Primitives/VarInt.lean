import Sumcoin.Primitives.Unserialize

/-!
# `VARINT`: the variable-length integers of `serialize.h`

`WriteVarInt` writes a number as base-128 digits, most significant first, with the high
bit set on every digit but the last.  Every digit but the last stands for one more than
it holds, so that no two byte strings encode one number: the loop takes the low seven
bits into `tmp[len]` and goes on with `(n >> 7) - 1`, and then writes `tmp` backwards.
`ReadVarInt<I>` reads into the unsigned type `I` and refuses two inputs: one more digit
when the number read so far would not fit once shifted (`n > max >> 7`), and a
continued digit when the number is already the type's maximum.

The encoding does not depend on `I`; the reader does, through its maximum.  The two laws
of `Lib.ByteReader` are proved for every `I`: the reader reads back every number of the
type, and accepts only the writer's bytes for a number of the type.  Together with the
laws of `ReadCompactSize` in `Primitives.Unserialize` they give the integer codecs of the
serialization layer.

## Main definitions

* `UIntType`: the unsigned integer types, by width.
* `getSizeOfVarInt`, `Ser.writeVarInt`, `Unser.readVarInt`.

## Main statements

* `Unser.readsBack_readVarInt`, `Unser.canonical_readVarInt`.
* `Ser.length_writeVarInt`: `GetSizeOfVarInt` counts the bytes written.
* `Unser.integer_codecs_bijective`: with the laws of `ReadCompactSize`.
-/

namespace Sumcoin

open ByteReader

/-- The standard unsigned integer types a `VARINT` is read into, by their width:
`unsigned char`, `unsigned short`, `unsigned int` and `uint64_t`. -/
inductive UIntType
  | uint8
  | uint16
  | uint32
  | uint64
  deriving DecidableEq, Repr

namespace UIntType

/-- The width in bits, `sizeof(I) * 8`. -/
def bits : UIntType → Nat
  | uint8 => 8
  | uint16 => 16
  | uint32 => 32
  | uint64 => 64

/-- `std::numeric_limits<I>::max()`. -/
def max (I : UIntType) : Nat := 2 ^ I.bits - 1

/-- Every type holds a whole digit. -/
theorem two_pow_bits (I : UIntType) : 2 ^ I.bits = 128 * 2 ^ (I.bits - 7) := by
  cases I <;> rfl

/-- A number the reader may still shift: seven more bits keep it in the type. -/
theorem mul_add_lt {I : UIntType} {n v : Nat} (hn : n ≤ I.max >>> 7) (hv : v < 128) :
    n * 128 + v < 2 ^ I.bits := by
  have hpow := two_pow_bits I
  have hpos := Nat.two_pow_pos (I.bits - 7)
  rw [max, Nat.shiftRight_eq_div_pow, hpow] at hn
  have hdiv : (128 * 2 ^ (I.bits - 7) - 1) / 2 ^ 7 = 2 ^ (I.bits - 7) - 1 := by omega
  rw [hdiv] at hn
  rw [hpow]
  have : n * 128 ≤ (2 ^ (I.bits - 7) - 1) * 128 := Nat.mul_le_mul_right 128 hn
  rw [Nat.sub_mul] at this
  omega

/-- The numbers of the type are those the reader may shift, shifted, with a digit. -/
theorem div_le_max_shiftRight {I : UIntType} {n : Nat} (hn : n < 2 ^ I.bits) :
    n / 128 ≤ I.max >>> 7 := by
  have hpow := two_pow_bits I
  rw [max, Nat.shiftRight_eq_div_pow]
  exact Nat.div_le_div_right (by omega)

end UIntType

/-! ## Digits -/

/-- The low seven bits and the high bit of a byte. -/
theorem toNat_and_7f (b : UInt8) : (b &&& 0x7F).toNat = b.toNat % 128 := by
  rw [UInt8.toNat_and, show (0x7F : UInt8).toNat = 2 ^ 7 - 1 from rfl,
    Nat.and_two_pow_sub_one_eq_mod]

theorem and_80_ne_zero_iff (b : UInt8) : b &&& 0x80 ≠ 0 ↔ 128 ≤ b.toNat := by
  have hb := b.toNat_lt
  have h : (b &&& 0x80).toNat = (b.toNat.testBit 7).toNat * 2 ^ 7 := by
    rw [UInt8.toNat_and, show (0x80 : UInt8).toNat = 2 ^ 7 from rfl, Nat.and_two_pow]
  rw [Nat.testBit_eq_decide_div_mod_eq] at h
  rw [ne_eq, ← UInt8.toNat_inj, h]
  by_cases h128 : 128 ≤ b.toNat
  · simp only [h128, iff_true]
    rw [show b.toNat / 2 ^ 7 % 2 = 1 by omega]
    decide
  · simp only [h128, iff_false, not_not]
    rw [show b.toNat / 2 ^ 7 % 2 = 0 by omega]
    decide

/-- `(n >> 7) - 1`: what `WriteVarInt` and `GetSizeOfVarInt` go on with. -/
theorem shiftRight_seven_sub_one (n : Nat) : (n >>> 7) - 1 = n / 128 - 1 := by
  rw [Nat.shiftRight_eq_div_pow]

namespace Ser

/-- `tmp[len] = (n & 0x7F) | (len ? 0x80 : 0x00)`. -/
def varIntDigit (n len : Nat) : UInt8 :=
  ((n &&& 0x7F) ||| (if len = 0 then 0x00 else 0x80)).toUInt8

/-- The loop of `WriteVarInt` from digit `len` on: `tmp[len]`, `tmp[len + 1]`, … -/
def writeVarIntTmp (n len : Nat) : List UInt8 :=
  varIntDigit n len :: if n ≤ 0x7F then [] else writeVarIntTmp ((n >>> 7) - 1) (len + 1)
termination_by n
decreasing_by rw [shiftRight_seven_sub_one]; omega

/-- `WriteVarInt(os, n)`: `tmp[len]` down to `tmp[0]`. -/
def writeVarInt (n : Nat) : List UInt8 := (writeVarIntTmp n 0).reverse

/-- A digit is the low seven bits of the number, with the high bit unless it is the
last one written. -/
theorem toNat_varIntDigit (n len : Nat) :
    (varIntDigit n len).toNat = n % 128 + if len = 0 then 0 else 128 := by
  have hm : n % 128 < 2 ^ 7 := Nat.mod_lt _ (by decide)
  rw [varIntDigit, show (0x7F : Nat) = 2 ^ 7 - 1 from rfl, Nat.and_two_pow_sub_one_eq_mod]
  split
  · simp
    omega
  · rw [show (0x80 : Nat) = 2 ^ 7 * 1 from rfl, Nat.or_comm, ← Nat.two_pow_add_eq_or_of_lt hm]
    simp
    omega

/-- Every byte is the digit of its low seven bits, continued exactly when its high bit
is set. -/
theorem varIntDigit_eq_of {b : UInt8} {n len : Nat} (hn : n % 128 = b.toNat % 128)
    (hlen : len = 0 ↔ b.toNat < 128) : varIntDigit n len = b := by
  have hb := b.toNat_lt
  rw [← UInt8.toNat_inj, toNat_varIntDigit, hn]
  split <;> omega

theorem writeVarIntTmp_eq (n len : Nat) :
    writeVarIntTmp n len =
      varIntDigit n len :: if n ≤ 0x7F then [] else writeVarIntTmp (n / 128 - 1) (len + 1) := by
  rw [writeVarIntTmp, shiftRight_seven_sub_one]

/-- Only the last digit written lacks the high bit: past `tmp[0]` the index no longer
matters. -/
theorem writeVarIntTmp_succ (n len : Nat) : writeVarIntTmp n (len + 1) = writeVarIntTmp n 1 := by
  induction n using Nat.strongRecOn generalizing len with
  | ind n ih =>
    have hdigit : varIntDigit n (len + 1) = varIntDigit n 1 := by simp [varIntDigit]
    rw [writeVarIntTmp_eq, writeVarIntTmp_eq n 1, hdigit]
    split
    · rfl
    · rw [ih _ (by omega), ih _ (by omega) 1]

/-- The encoding as the reader meets it: the digits of `n / 128 - 1`, continued, then
the digit of `n`. -/
theorem reverse_writeVarIntTmp (n len : Nat) :
    (writeVarIntTmp n len).reverse =
      (if n ≤ 0x7F then [] else (writeVarIntTmp (n / 128 - 1) 1).reverse) ++
        [varIntDigit n len] := by
  rw [writeVarIntTmp_eq]
  split
  · rfl
  · rw [List.reverse_cons, writeVarIntTmp_succ]

/-- A number below `0x80` is its own single digit. -/
theorem writeVarInt_of_lt {n : Nat} (h : n < 128) : writeVarInt n = [n.toUInt8] := by
  have hdigit : varIntDigit n 0 = n.toUInt8 := by
    rw [← UInt8.toNat_inj, toNat_varIntDigit, if_pos rfl]
    simp
    omega
  rw [writeVarInt, writeVarIntTmp_eq, if_pos (by omega), hdigit]
  rfl

end Ser

/-- The loop of `GetSizeOfVarInt<Mode, I>(n)`, with `nRet` digits counted. -/
def getSizeOfVarIntLoop (n nRet : Nat) : Nat :=
  if n ≤ 0x7F then nRet + 1 else getSizeOfVarIntLoop ((n >>> 7) - 1) (nRet + 1)
termination_by n
decreasing_by rw [shiftRight_seven_sub_one]; omega

/-- `GetSizeOfVarInt<Mode, I>(n)`. -/
def getSizeOfVarInt (n : Nat) : Nat := getSizeOfVarIntLoop n 0

/-- `GetSizeOfVarInt` counts the bytes `WriteVarInt` writes. -/
theorem Ser.length_writeVarInt (n : Nat) : (Ser.writeVarInt n).length = getSizeOfVarInt n := by
  -- the two loops take the same steps; `nRet` counts the digits already in `tmp`
  have hloop : ∀ n len nRet, (Ser.writeVarIntTmp n len).length + nRet = getSizeOfVarIntLoop n nRet := by
    intro n
    induction n using Nat.strongRecOn with
    | ind n ih =>
      intro len nRet
      rw [Ser.writeVarIntTmp_eq, getSizeOfVarIntLoop, shiftRight_seven_sub_one]
      split
      · simp
        omega
      · rw [← ih _ (by omega) (len + 1)]
        simp
        omega
  rw [Ser.writeVarInt, List.length_reverse, getSizeOfVarInt, ← hloop n 0 0]
  rfl

namespace Unser

/-- The loop of `ReadVarInt<I>(is)`, with `n` read so far.  The shift and the digit are
computed in `I`; the first guard keeps them from wrapping. -/
def readVarIntLoop (I : UIntType) (n : Nat) : List UInt8 → Except String (Nat × List UInt8)
  | [] => .error "end of data"
  | chData :: s =>
    if n > I.max >>> 7 then .error "ReadVarInt(): size too large"
    else
      let n := (n <<< 7 ||| (chData &&& 0x7F).toNat) % 2 ^ I.bits
      if chData &&& 0x80 ≠ 0 then
        if n = I.max then .error "ReadVarInt(): size too large" else readVarIntLoop I (n + 1) s
      else .ok (n, s)

/-- `ReadVarInt<Stream, Mode, I>(is)`. -/
def readVarInt (I : UIntType) : Reader Nat := readVarIntLoop I 0

/-- One digit of the reader, when the number read so far may still be shifted. -/
theorem readVarIntLoop_cons {I : UIntType} {n : Nat} (hn : n ≤ I.max >>> 7)
    (chData : UInt8) (s : List UInt8) :
    readVarIntLoop I n (chData :: s) =
      if 128 ≤ chData.toNat then
        if n * 128 + chData.toNat % 128 = I.max then .error "ReadVarInt(): size too large"
        else readVarIntLoop I (n * 128 + chData.toNat % 128 + 1) s
      else .ok (n * 128 + chData.toNat % 128, s) := by
  have hv : chData.toNat % 128 < 2 ^ 7 := Nat.mod_lt _ (by decide)
  -- the shifted number and the digit do not overlap, and stay in the type
  have hshift : (n <<< 7 ||| (chData &&& 0x7F).toNat) % 2 ^ I.bits = n * 128 + chData.toNat % 128 := by
    rw [toNat_and_7f, Nat.shiftLeft_eq, Nat.mul_comm, ← Nat.two_pow_add_eq_or_of_lt hv,
      Nat.mod_eq_of_lt (by rw [Nat.mul_comm]; exact UIntType.mul_add_lt hn hv)]
  rw [readVarIntLoop, if_neg (by omega)]
  simp only [hshift, and_80_ne_zero_iff]

/-- Reading the digit of `n` once the digits above it are read. -/
theorem readVarIntLoop_varIntDigit {I : UIntType} {n len : Nat} (hn : n < 2 ^ I.bits)
    (hc : len ≠ 0 → n < I.max) (rest : List UInt8) :
    readVarIntLoop I (n / 128) (Ser.varIntDigit n len :: rest) =
      if len = 0 then .ok (n, rest) else readVarIntLoop I (n + 1) rest := by
  have hdigit := Ser.toNat_varIntDigit n len
  have hvalue : n / 128 * 128 + (Ser.varIntDigit n len).toNat % 128 = n := by
    rw [hdigit]
    split <;> omega
  rw [readVarIntLoop_cons (UIntType.div_le_max_shiftRight hn), hvalue]
  by_cases hlen : len = 0
  · rw [if_neg (by rw [hdigit, if_pos hlen]; omega), if_pos hlen]
  · rw [if_pos (by rw [hdigit, if_neg hlen]; omega), if_neg (by have := hc hlen; omega),
      if_neg hlen]

/-- **The reader reads the writer's digits.**  From the most significant digit down,
each continued digit leaves one more than the number it encodes, and the last one
leaves the number. -/
theorem readVarIntLoop_writeVarIntTmp {I : UIntType} {n len : Nat} (hn : n < 2 ^ I.bits)
    (hc : len ≠ 0 → n < I.max) (rest : List UInt8) :
    readVarIntLoop I 0 ((Ser.writeVarIntTmp n len).reverse ++ rest) =
      if len = 0 then .ok (n, rest) else readVarIntLoop I (n + 1) rest := by
  induction n using Nat.strongRecOn generalizing len rest with
  | ind n ih =>
    rw [Ser.reverse_writeVarIntTmp]
    split
    case isTrue hsmall =>
      have h := readVarIntLoop_varIntDigit hn hc rest
      rwa [Nat.div_eq_of_lt (by omega : n < 128)] at h
    case isFalse hlarge =>
      -- the digits above leave `n / 128`, from which the digit of `n` reads `n`
      have hmax : n / 128 - 1 < I.max := by
        have := I.two_pow_bits
        rw [UIntType.max]
        omega
      rw [List.append_assoc, List.singleton_append,
        ih (n / 128 - 1) (by omega) (by omega) (fun _ => hmax), if_neg (by omega),
        show n / 128 - 1 + 1 = n / 128 by omega]
      exact readVarIntLoop_varIntDigit hn hc rest

theorem readsBack_readVarInt (I : UIntType) :
    ReadsBack (· < 2 ^ I.bits) Ser.writeVarInt (readVarInt I) := by
  intro n rest hn
  have h := @readVarIntLoop_writeVarIntTmp I n 0 hn (fun h => absurd rfl h) rest
  rwa [if_pos rfl] at h

/-- `2 ^ 32`, from the table in `serialize.h`. -/
example : Ser.writeVarInt 0x100000000 = [0x8E, 0xFE, 0xFE, 0xFF, 0x00] := by decide +kernel

/-- The digits a reader holding `n` has consumed: none at the start, else the continued
digits of `n - 1`. -/
def varIntPrefix (n : Nat) : List UInt8 :=
  if n = 0 then [] else (Ser.writeVarIntTmp (n - 1) 1).reverse

/-- Reading digit `v` from `n` extends the digits consumed by the digit of
`n * 128 + v`. -/
theorem reverse_writeVarIntTmp_mul_add (n : Nat) {v : Nat} (hv : v < 128) (len : Nat) :
    (Ser.writeVarIntTmp (n * 128 + v) len).reverse =
      varIntPrefix n ++ [Ser.varIntDigit (n * 128 + v) len] := by
  rw [Ser.reverse_writeVarIntTmp, varIntPrefix]
  by_cases hn : n = 0
  · rw [if_pos (by omega), if_pos hn]
  · rw [if_neg (by omega), if_neg hn, show (n * 128 + v) / 128 - 1 = n - 1 by omega]

/-- **What the reader accepts is the writer's bytes.**  The invariant of the loop: what
it consumed from the start, after the digits a reader holding `n` has, is the encoding
of the number it returns. -/
theorem readVarIntLoop_canonical (I : UIntType) :
    ∀ s n m rest, readVarIntLoop I n s = .ok (m, rest) →
      m < 2 ^ I.bits ∧ ∃ B, s = B ++ rest ∧ varIntPrefix n ++ B = Ser.writeVarInt m := by
  intro s
  induction s with
  | nil =>
    intro n m rest h
    cases h
  | cons chData s ih =>
    intro n m rest h
    by_cases hn : n ≤ I.max >>> 7
    case neg =>
      rw [readVarIntLoop, if_pos (by omega)] at h
      cases h
    case pos =>
    have hv : chData.toNat % 128 < 128 := Nat.mod_lt _ (by decide)
    have hdigit : ∀ len, (len = 0 ↔ chData.toNat < 128) →
        Ser.varIntDigit (n * 128 + chData.toNat % 128) len = chData :=
      fun len hlen => Ser.varIntDigit_eq_of (by omega) hlen
    rw [readVarIntLoop_cons hn] at h
    split at h
    case isTrue hcont =>
      -- a continued digit: the rest is read from one more than the number so far
      split at h
      case isTrue => cases h
      case isFalse hmax =>
      obtain ⟨hm, B, rfl, hB⟩ := ih _ m rest h
      have hpre : varIntPrefix (n * 128 + chData.toNat % 128 + 1) = varIntPrefix n ++ [chData] := by
        rw [varIntPrefix, if_neg (by omega), Nat.add_sub_cancel,
          reverse_writeVarIntTmp_mul_add n hv, hdigit 1 (by omega)]
      refine ⟨hm, chData :: B, rfl, ?_⟩
      rw [← hB, hpre, List.append_assoc, List.singleton_append]
    case isFalse hlast =>
      -- the last digit: the number read so far, shifted, with the digit
      obtain ⟨rfl, rfl⟩ := Except.ok.inj h |> Prod.mk.inj
      refine ⟨UIntType.mul_add_lt hn hv, [chData], rfl, ?_⟩
      rw [Ser.writeVarInt, reverse_writeVarIntTmp_mul_add n hv, hdigit 0 (by omega)]

theorem canonical_readVarInt (I : UIntType) :
    Canonical (· < 2 ^ I.bits) Ser.writeVarInt (readVarInt I) := by
  intro s m rest h
  obtain ⟨hm, B, rfl, hB⟩ := readVarIntLoop_canonical I s 0 m rest h
  refine ⟨hm, ?_⟩
  rw [← hB, varIntPrefix, if_pos rfl, List.nil_append]

/-- `2 ^ 32` does not fit in a `uint32_t`. -/
example : readVarInt .uint32 [0x8E, 0xFE, 0xFE, 0xFF, 0x00] = .error "ReadVarInt(): size too large" := by
  decide

/-- **The integer codecs are bijective.**  For every unsigned type, `ReadVarInt` reads
back every number of the type from what `WriteVarInt` writes, which is
`GetSizeOfVarInt` bytes long, and accepts only those bytes, for a number of the type;
`ReadCompactSize` reads back every count up to `MAX_SIZE` and accepts only the shortest
form of such a count. -/
theorem integer_codecs_bijective (I : UIntType) :
    ReadsBack (· < 2 ^ I.bits) Ser.writeVarInt (readVarInt I) ∧
      (∀ n, (Ser.writeVarInt n).length = getSizeOfVarInt n) ∧
      Canonical (· < 2 ^ I.bits) Ser.writeVarInt (readVarInt I) ∧
      ReadsBack (· ≤ maxSize) Ser.compactSize readCompactSize ∧
      Canonical (· ≤ maxSize) Ser.compactSize readCompactSize :=
  ⟨readsBack_readVarInt I, Ser.length_writeVarInt, canonical_readVarInt I,
    readsBack_readCompactSize, canonical_readCompactSize⟩

end Unser

end Sumcoin
