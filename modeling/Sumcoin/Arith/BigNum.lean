import Sumcoin.Arith.ArithUint256

/-!
# `CBigNum`: the OpenSSL big numbers of `bignum.h`

`CBigNum` wraps an OpenSSL `BIGNUM`, a signed integer of any size.  The model keeps
that integer, and each `BN_*` call the class makes is a function on it with the
semantics of the OpenSSL manual.  The class's own code is translated over those calls:
`SetCompact`, `GetCompact`, the constructors and the operators that consensus uses.

Both compact codecs refine `Compact`: `CBigNum::SetCompact` yields `Compact.denote`
of the word, with no cut to 256 bits, and `CBigNum::GetCompact` writes
`Compact.encode` of the magnitude with the sign of the number.  The agreement of the
two classes on every word and value they share is read off the two refinements.

## Main definitions

* `CBigNum`, the `BN_*` calls `bnSetWord` … `bnGetWord`.
* `CBigNum.setCompact`, `CBigNum.getCompact`.

## Main statements

* `CBigNum.setCompact_val`, `CBigNum.getCompact_eq_encode`.
* `CBigNum.compact_codecs_agree`.
-/

namespace Sumcoin

/-- `CBigNum`: the integer its `BIGNUM` holds. -/
structure CBigNum where
  val : Int
  deriving DecidableEq, Repr

namespace CBigNum

/-! ## The OpenSSL calls -/

/-- `BN_set_word(a, w)`: `a = w`. -/
def bnSetWord (w : UInt64) : CBigNum := ⟨w.toNat⟩

/-- `BN_lshift(r, a, n)`: `r = a * 2 ^ n`. -/
def bnLshift (a : CBigNum) (n : Nat) : CBigNum := ⟨a.val * 2 ^ n⟩

/-- `BN_rshift(r, a, n)`: the magnitude shifted right by `n`, with the sign of `a`. -/
def bnRshift (a : CBigNum) (n : Nat) : CBigNum :=
  ⟨if a.val < 0 then -((a.val.natAbs / 2 ^ n : Nat) : Int) else (a.val.natAbs / 2 ^ n : Nat)⟩

/-- `BN_set_negative(a, b)`: negative when `b` holds and `a` is not zero. -/
def bnSetNegative (a : CBigNum) (b : Bool) : CBigNum :=
  ⟨if b then -(a.val.natAbs : Int) else a.val.natAbs⟩

/-- `BN_is_negative(a)`. -/
def bnIsNegative (a : CBigNum) : Bool := decide (a.val < 0)

/-- `BN_num_bits(a)`: the bit length of the magnitude. -/
def bnNumBits (a : CBigNum) : Nat := a.val.natAbs.size

/-- `BN_num_bytes(a)`, the macro `(BN_num_bits(a) + 7) / 8`. -/
def bnNumBytes (a : CBigNum) : Nat := (bnNumBits a + 7) / 8

/-- `BN_get_word(a)`: the magnitude, or all bits set when it does not fit in a word. -/
def bnGetWord (a : CBigNum) : UInt64 :=
  if a.val.natAbs < 2 ^ 64 then a.val.natAbs.toUInt64 else 0xffffffffffffffff

theorem toNat_bnGetWord {a : CBigNum} (h : a.val.natAbs < 2 ^ 64) :
    (bnGetWord a).toNat = a.val.natAbs := by
  rw [bnGetWord, if_pos h, Nat.toUInt64, UInt64.toNat_ofNat', Nat.mod_eq_of_lt h]

/-! ## `SetCompact` -/

/-- `CBigNum::SetCompact(nCompact)`. -/
def setCompact (nCompact : UInt32) : CBigNum :=
  let nSize := Compact.exponent nCompact
  let fNegative := nCompact &&& 0x00800000 != 0
  let nWord := nCompact &&& 0x007fffff
  let self :=
    if nSize ≤ 3 then bnSetWord (nWord >>> (8 * (3 - nSize)).toUInt32).toUInt64
    else bnLshift (bnSetWord nWord.toUInt64) (8 * (nSize - 3))
  bnSetNegative self fNegative

/-- `CBigNum::SetCompact` yields the signed number the word stands for, at any size. -/
theorem setCompact_val (nCompact : UInt32) :
    (setCompact nCompact).val = Compact.denote nCompact := by
  have hmag : (if Compact.exponent nCompact ≤ 3 then
      bnSetWord ((nCompact &&& 0x007fffff) >>> (8 * (3 - Compact.exponent nCompact)).toUInt32).toUInt64
      else bnLshift (bnSetWord (nCompact &&& 0x007fffff).toUInt64)
        (8 * (Compact.exponent nCompact - 3))).val.natAbs = Compact.magnitude nCompact := by
    by_cases h : Compact.exponent nCompact ≤ 3
    · rw [if_pos h, bnSetWord, UInt32.toNat_toUInt64, Compact.toNat_mantissa_shiftRight h]
      rfl
    · rw [if_neg h, bnLshift, bnSetWord, UInt32.toNat_toUInt64, Compact.magnitude, if_neg h]
      rfl
  simp only [setCompact, bnSetNegative, hmag]
  rfl

/-! ## `GetCompact` -/

/-- `nCompact` and `nSize` of `GetCompact` after the leading bytes and the sign step. -/
def compactLead (bn : CBigNum) : UInt32 × Nat :=
  let nSize := bnNumBytes bn
  let nCompact : UInt32 :=
    if nSize ≤ 3 then (bnGetWord bn <<< (8 * (3 - nSize)).toUInt64).toUInt32
    else (bnGetWord (bnRshift bn (8 * (nSize - 3)))).toUInt32
  Compact.normalize nCompact nSize

/-- `CBigNum::GetCompact()`. -/
def getCompact (bn : CBigNum) : UInt32 :=
  let r := compactLead bn
  let nCompact := r.1 ||| r.2.toUInt32 <<< 24
  nCompact ||| if bnIsNegative bn then 0x00800000 else 0

/-- The leading bytes of the magnitude and the sign step give the fields of
`Compact.expMant`. -/
theorem compactLead_eq (bn : CBigNum) :
    compactLead bn =
      (UInt32.ofNat (Compact.expMant bn.val.natAbs).2, (Compact.expMant bn.val.natAbs).1) := by
  have hx := Compact.lt_two_pow_byteSize bn.val.natAbs
  have hl := Compact.leadBytes_lt bn.val.natAbs
  have hsize : bnNumBytes bn = Compact.byteSize bn.val.natAbs := rfl
  simp only [compactLead, hsize]
  rw [← Compact.normalize_leadBytes]
  congr 1
  unfold Compact.leadBytes at hl ⊢
  by_cases h : Compact.byteSize bn.val.natAbs ≤ 3
  · rw [if_pos h] at hl
    have hword : (bnGetWord bn).toNat = bn.val.natAbs :=
      toNat_bnGetWord (Nat.lt_of_lt_of_le hx (Nat.pow_le_pow_right (by decide) (by omega)))
    rw [if_pos h, if_pos h,
      Limbs.toUInt32_shiftLeft _ (by omega) (by rw [hword]; omega), hword]
  · rw [if_neg h] at hl
    -- the shifted magnitude is the leading bytes, whatever the sign
    have hshift : (bnRshift bn (8 * (Compact.byteSize bn.val.natAbs - 3))).val.natAbs =
        bn.val.natAbs / 2 ^ (8 * (Compact.byteSize bn.val.natAbs - 3)) := by
      rw [bnRshift]
      dsimp only
      split <;> simp only [Int.natAbs_neg, Int.natAbs_natCast]
    have hword := toNat_bnGetWord (Nat.lt_of_lt_of_le (hshift ▸ hl) (by decide))
    rw [if_neg h, if_neg h, Limbs.toUInt32_eq_ofNat, hword, hshift]

/-- `CBigNum::GetCompact` writes the compact form of the magnitude with the sign of the
number. -/
theorem getCompact_eq_encode (bn : CBigNum) :
    bn.getCompact = Compact.encode bn.val.natAbs (bnIsNegative bn) := by
  -- a negative number is not zero, so its sign survives in the encoding
  have hsign : (bnIsNegative bn && bn.val.natAbs != 0) = bnIsNegative bn := by
    unfold bnIsNegative
    by_cases h : bn.val < 0
    · simp [h, Int.natAbs_eq_zero, Int.ne_of_lt h]
    · simp [h]
  simp only [getCompact, compactLead_eq, Compact.encode, hsign]
  rfl

/-- The two compact codecs agree.  Every word that `arith_uint256::SetCompact` reads
with neither flag raised denotes, under `CBigNum::SetCompact`, the value that
`arith_uint256` stores; and on every value the two classes share, their `GetCompact`s
write the same word. -/
theorem compact_codecs_agree :
    (∀ nCompact : UInt32, (ArithUint256.setCompact nCompact).fNegative = false →
        (ArithUint256.setCompact nCompact).fOverflow = false →
        (setCompact nCompact).val = ((ArithUint256.setCompact nCompact).value.toNat : Int)) ∧
      (∀ (bn : CBigNum) (a : ArithUint256), bn.val = a.toNat →
        bn.getCompact = a.getCompact false) := by
  refine ⟨fun nCompact hneg hovf => ?_, fun bn a h => ?_⟩
  · rw [ArithUint256.setCompact_fNegative] at hneg
    rw [ArithUint256.setCompact_fOverflow, decide_eq_false_iff_not, Nat.not_le] at hovf
    rw [setCompact_val, ArithUint256.toNat_setCompact_value, Nat.mod_eq_of_lt hovf, Compact.denote]
    -- a set sign bit is harmless only on a zero magnitude
    by_cases hs : Compact.signBit nCompact
    · have hz : Compact.magnitude nCompact = 0 := by simpa [hs] using hneg
      simp [hs, hz]
    · simp [hs]
  · have hneg : bnIsNegative bn = false := by
      simp [bnIsNegative, h]
    rw [getCompact_eq_encode, ArithUint256.getCompact_eq_encode, hneg, h, Int.natAbs_natCast]

/-! ## The arithmetic of the retarget -/

/-- `CBigNum(int64_t n)`, that is `setint64(n)`: the sign-magnitude bytes of `n`,
which `BN_mpi2bn` reads back as `n`. -/
def setint64 (n : Int) : CBigNum := ⟨n⟩

/-- `CBigNum(uint256 n)`, that is `setuint256(n)`: the bytes from the last, most
significant one, read as a non-negative number. -/
def setuint256 (n : Uint256) : CBigNum :=
  ⟨(n.data.toList.foldr (fun c acc => c.toNat + 256 * acc) 0 : Nat)⟩

/-- `operator*=`: `BN_mul`. -/
def mul (a b : CBigNum) : CBigNum := ⟨a.val * b.val⟩

/-- `operator/`: `BN_div`, whose quotient rounds toward zero; it fails on a zero divisor,
and the operator then throws. -/
def div (a b : CBigNum) : Except String CBigNum :=
  if b.val = 0 then throw "CBigNum::operator/ : BN_div failed" else pure ⟨a.val.tdiv b.val⟩

/-- `operator>`: `BN_cmp(a, b) > 0`. -/
def gt (a b : CBigNum) : Bool := decide (b.val < a.val)

end CBigNum

end Sumcoin
