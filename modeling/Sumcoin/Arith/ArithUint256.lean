import Sumcoin.Arith.BaseUint
import Sumcoin.Arith.Compact

/-!
# `uint256`, `arith_uint256` and its compact codec

`uint256` is an opaque blob of 32 bytes (`uint256.h`); `arith_uint256` is
`base_uint<256>` and reads a blob through little-endian 32-bit words
(`UintToArith256`).  `arith_uint256::SetCompact` and `GetCompact` are translated
line by line, and the lemmas read them against `Compact`: `SetCompact` stores the
magnitude of the word cut to 256 bits, its negative flag is the sign of a word whose
magnitude is not zero, its overflow flag says exactly that the magnitude leaves
256 bits, and `GetCompact` writes `Compact.encode` of the value.

## Main definitions

* `Uint256`, `uintToArith256`, which is injective (`uintToArith256_injective`).
* `ArithUint256.setCompact`, `ArithUint256.getCompact`.

## Main statements

* `ArithUint256.toNat_setCompact_value`, `ArithUint256.setCompact_fNegative`,
  `ArithUint256.setCompact_fOverflow`.
* `ArithUint256.getCompact_eq_encode`, `ArithUint256.compactLead_asserts`.
* `ArithUint256.setCompact_getCompact`: the number `SetCompact` reads back from
  `GetCompact`, and the word round trip.
-/

namespace Sumcoin

/-- `uint256`: an opaque blob of 32 bytes, in storage order. -/
structure Uint256 where
  data : Vector UInt8 32
  deriving DecidableEq, Repr

/-- `arith_uint256`: `base_uint<256>`, eight limbs. -/
abbrev ArithUint256 := BaseUint 8

/-- The low 64 bits that `GetLow64` and `EqualTo` read are two of its limbs. -/
theorem ArithUint256.two_le_width : 2 ≤ 8 := by decide

namespace Uint256

/-- `ReadLE32(begin() + 4 * x)`: word `x` of the blob, little-endian. -/
def readLE32 (a : Uint256) (x : Fin 8) : UInt32 :=
  a.data[4 * x.val].toUInt32 ||| a.data[4 * x.val + 1].toUInt32 <<< 8 |||
    a.data[4 * x.val + 2].toUInt32 <<< 16 ||| a.data[4 * x.val + 3].toUInt32 <<< 24

end Uint256

/-- `UintToArith256`: limb `x` is `ReadLE32(a.begin() + x * 4)`. -/
def uintToArith256 (a : Uint256) : ArithUint256 := ⟨Vector.ofFn a.readLE32⟩

/-! ## Reading a blob as words loses nothing -/

theorem testBit_byte_of_le (b : UInt8) {i : Nat} (hi : 8 ≤ i) : b.toNat.testBit i = false :=
  Nat.testBit_lt_two_pow (lt_of_lt_of_le b.toNat_lt (Nat.pow_le_pow_right (by decide) hi))

/-- Bit `8 * k + t` of word `x` is bit `t` of byte `4 * x + k`. -/
theorem Uint256.testBit_readLE32 (a : Uint256) (x : Fin 8) (k : Fin 4) {t : Nat} (ht : t < 8) :
    (a.readLE32 x).toNat.testBit (8 * k.val + t) = a.data[4 * x.val + k.val].toNat.testBit t := by
  simp only [Uint256.readLE32, UInt32.toNat_or, Nat.testBit_or, UInt32.toNat_shiftLeft,
    Nat.testBit_mod_two_pow, Nat.testBit_shiftLeft, UInt8.toNat_toUInt32]
  -- one case for each byte of the word; the other three bytes contribute no bit there
  obtain ⟨_ | _ | _ | _ | k, hk⟩ := k
  case succ.succ.succ.succ => omega
  all_goals simp (disch := omega) [testBit_byte_of_le, decide_eq_true, decide_eq_false]

/-- A blob is determined by its words. -/
theorem Uint256.eq_of_readLE32 {a b : Uint256} (h : ∀ x, a.readLE32 x = b.readLE32 x) :
    a = b := by
  have hbyte : ∀ j (hj : j < 32), a.data[j] = b.data[j] := by
    intro j hj
    have hj' : 4 * (j / 4) + j % 4 = j := Nat.div_add_mod j 4
    apply UInt8.toNat_inj.mp
    apply Nat.eq_of_testBit_eq
    intro t
    by_cases ht : t < 8
    · have ha := a.testBit_readLE32 ⟨j / 4, by omega⟩ ⟨j % 4, by omega⟩ ht
      have hb := b.testBit_readLE32 ⟨j / 4, by omega⟩ ⟨j % 4, by omega⟩ ht
      simp only [hj'] at ha hb
      rw [← ha, ← hb, h]
    · rw [testBit_byte_of_le _ (by omega), testBit_byte_of_le _ (by omega)]
  obtain ⟨⟨da, hda⟩⟩ := a
  obtain ⟨⟨db, hdb⟩⟩ := b
  congr
  apply Array.ext (hda.trans hdb.symm)
  intro j hja _
  exact hbyte j (hda ▸ hja)

/-- `UintToArith256` is injective: two blobs with one value are one blob. -/
theorem uintToArith256_injective {a b : Uint256}
    (h : (uintToArith256 a).toNat = (uintToArith256 b).toNat) : a = b := by
  have hpn : (uintToArith256 a).pn = (uintToArith256 b).pn := Limbs.eq_of_vvalue_eq h
  apply Uint256.eq_of_readLE32
  intro x
  have := congrArg (fun v : Vector UInt32 8 => v[x]) hpn
  simpa [uintToArith256] using this

namespace ArithUint256

/-! ## `SetCompact` -/

/-- What `arith_uint256::SetCompact` leaves: the value it stores in `*this` and the
flags it writes through `pfNegative` and `pfOverflow`. -/
structure Decoded where
  value : ArithUint256
  fNegative : Bool
  fOverflow : Bool
  deriving DecidableEq, Repr

/-- `nWord` as `SetCompact` leaves it: `nCompact & 0x007fffff`, shifted down in place
when `nSize <= 3`. -/
def compactWord (nCompact : UInt32) : UInt32 :=
  let nSize := Compact.exponent nCompact
  let nWord := nCompact &&& 0x007fffff
  if nSize ≤ 3 then nWord >>> (8 * (3 - nSize)).toUInt32 else nWord

/-- `arith_uint256::SetCompact(nCompact, pfNegative, pfOverflow)`. -/
def setCompact (nCompact : UInt32) : Decoded :=
  let nSize := Compact.exponent nCompact
  let nWord := compactWord nCompact
  { value := if nSize ≤ 3 then BaseUint.ofUInt64 nWord.toUInt64
      else (BaseUint.ofUInt64 nWord.toUInt64).shiftLeft (8 * (nSize - 3))
    fNegative := nWord != 0 && nCompact &&& 0x00800000 != 0
    fOverflow := nWord != 0 && (decide (nSize > 34) || decide (nWord > 0xff) && decide (nSize > 33) ||
      decide (nWord > 0xffff) && decide (nSize > 32)) }

variable (nCompact : UInt32)

/-- The stored word is the magnitude on the short branch and the mantissa otherwise. -/
theorem toNat_compactWord :
    (compactWord nCompact).toNat =
      if Compact.exponent nCompact ≤ 3 then Compact.magnitude nCompact
      else Compact.mantissa nCompact := by
  simp only [compactWord]
  by_cases h : Compact.exponent nCompact ≤ 3
  · rw [if_pos h, if_pos h, Compact.toNat_mantissa_shiftRight h]
  · rw [if_neg h, if_neg h]
    rfl

theorem compactWord_ne_zero_iff : compactWord nCompact ≠ 0 ↔ Compact.magnitude nCompact ≠ 0 := by
  rw [ne_eq, ← UInt32.toNat_inj, toNat_compactWord, UInt32.toNat_zero]
  by_cases h : Compact.exponent nCompact ≤ 3
  · rw [if_pos h]
  · rw [if_neg h, ne_eq, @Compact.magnitude_eq_zero_iff_of_lt nCompact (by omega)]

/-- `SetCompact` stores the magnitude of the word, cut to 256 bits. -/
theorem toNat_setCompact_value :
    (setCompact nCompact).value.toNat = Compact.magnitude nCompact % 2 ^ 256 := by
  have hw := toNat_compactWord nCompact
  simp only [setCompact]
  by_cases h : Compact.exponent nCompact ≤ 3
  · have hm := Compact.magnitude_lt_of_exponent_le h
    rw [if_pos h] at hw ⊢
    rw [BaseUint.toNat_ofUInt64 (by decide), UInt32.toNat_toUInt64, hw,
      Nat.mod_eq_of_lt (by omega)]
  · rw [if_neg h] at hw ⊢
    rw [BaseUint.toNat_shiftLeft, BaseUint.toNat_ofUInt64 (by decide), UInt32.toNat_toUInt64, hw,
      Compact.magnitude, if_neg h]

/-- `*pfNegative`: the sign bit of a word whose magnitude is not zero. -/
theorem setCompact_fNegative :
    (setCompact nCompact).fNegative =
      (Compact.magnitude nCompact != 0 && Compact.signBit nCompact) := by
  have hw : (compactWord nCompact != 0) = (Compact.magnitude nCompact != 0) := by
    rw [Bool.eq_iff_iff, bne_iff_ne, bne_iff_ne]
    exact compactWord_ne_zero_iff nCompact
  simp only [setCompact, hw]
  rfl

/-- The three tests of the overflow flag say exactly that `w * 256 ^ (e - 3)` leaves
256 bits, for every 23-bit mantissa `w`. -/
theorem two_pow_256_le_iff {w e : Nat} (hw : w < 2 ^ 23) (he : 3 < e) :
    2 ^ 256 ≤ w * 2 ^ (8 * (e - 3)) ↔
      w ≠ 0 ∧ (34 < e ∨ (0xff < w ∧ 33 < e) ∨ (0xffff < w ∧ 32 < e)) := by
  rcases Nat.lt_or_ge 34 e with h34 | h34
  · -- from exponent 35 on, every mantissa but zero overflows
    have hp : 2 ^ 256 ≤ 2 ^ (8 * (e - 3)) := Nat.pow_le_pow_right (by decide) (by omega)
    constructor
    · intro h
      refine ⟨fun hw0 => ?_, Or.inl h34⟩
      rw [hw0, Nat.zero_mul] at h
      exact absurd h (by decide)
    · rintro ⟨hw0, -⟩
      exact Nat.le_trans hp (Nat.le_mul_of_pos_left _ (Nat.pos_of_ne_zero hw0))
  · rcases (show e = 34 ∨ e = 33 ∨ e ≤ 32 by omega) with rfl | rfl | h32
    · simp only [Nat.reduceSub, Nat.reduceMul]
      omega
    · simp only [Nat.reduceSub, Nat.reduceMul]
      omega
    · have hlt : w * 2 ^ (8 * (e - 3)) < 2 ^ 256 :=
        calc w * 2 ^ (8 * (e - 3)) ≤ w * 2 ^ 232 :=
              Nat.mul_le_mul_left _ (Nat.pow_le_pow_right (by decide) (by omega))
          _ < 2 ^ 23 * 2 ^ 232 := Nat.mul_lt_mul_of_pos_right hw (Nat.two_pow_pos _)
          _ ≤ 2 ^ 256 := by decide
      constructor
      · intro h
        omega
      · rintro ⟨-, h | h | h⟩ <;> omega

/-- `*pfOverflow`: the magnitude of the word leaves 256 bits. -/
theorem setCompact_fOverflow :
    (setCompact nCompact).fOverflow = decide (2 ^ 256 ≤ Compact.magnitude nCompact) := by
  have hw := toNat_compactWord nCompact
  have hne := compactWord_ne_zero_iff nCompact
  simp only [setCompact]
  by_cases h : Compact.exponent nCompact ≤ 3
  · -- the short branch never overflows, and its magnitude is below `2 ^ 23`
    have hm := Compact.magnitude_lt_of_exponent_le h
    simp [show ¬ 34 < Compact.exponent nCompact by omega,
      show ¬ 33 < Compact.exponent nCompact by omega, show ¬ 32 < Compact.exponent nCompact by omega]
    omega
  · rw [if_neg h] at hw
    have hmag : Compact.magnitude nCompact =
        Compact.mantissa nCompact * 2 ^ (8 * (Compact.exponent nCompact - 3)) := by
      rw [Compact.magnitude, if_neg h]
    have hne' : compactWord nCompact ≠ 0 ↔ Compact.mantissa nCompact ≠ 0 := by
      rw [hne, ne_eq, ne_eq, Compact.magnitude_eq_zero_iff_of_lt (by omega)]
    rw [Bool.eq_iff_iff, decide_eq_true_iff, hmag,
      two_pow_256_le_iff (Compact.mantissa_lt nCompact) (by omega)]
    simp [hne', UInt32.lt_iff_toNat_lt, hw, or_assoc]

/-! ## `GetCompact` -/

/-- `nCompact` and `nSize` at the asserts of `GetCompact`: the leading bytes, through
the sign step both codecs share. -/
def compactLead (a : ArithUint256) : UInt32 × Nat :=
  let nSize := (a.bits + 7) / 8
  let nCompact : UInt32 :=
    if nSize ≤ 3 then (a.getLow64 two_le_width <<< (8 * (3 - nSize)).toUInt64).toUInt32
    else ((a.shiftRight (8 * (nSize - 3))).getLow64 two_le_width).toUInt32
  Compact.normalize nCompact nSize

/-- `arith_uint256::GetCompact(fNegative)`.  Its two asserts hold for every value
(`compactLead_asserts`), so they are not part of the result. -/
def getCompact (a : ArithUint256) (fNegative : Bool) : UInt32 :=
  let r := compactLead a
  let nCompact := r.1 ||| r.2.toUInt32 <<< 24
  nCompact ||| if fNegative && nCompact &&& 0x007fffff != 0 then 0x00800000 else 0

/-- The leading bytes and the sign step give the fields of `Compact.expMant`. -/
theorem compactLead_eq (a : ArithUint256) :
    compactLead a =
      (UInt32.ofNat (Compact.expMant a.toNat).2, (Compact.expMant a.toNat).1) := by
  have hsize : (a.bits + 7) / 8 = Compact.byteSize a.toNat := by
    rw [BaseUint.bits_eq_size]
    rfl
  have hx := Compact.lt_two_pow_byteSize a.toNat
  have hl := Compact.leadBytes_lt a.toNat
  simp only [compactLead, hsize]
  rw [← Compact.normalize_leadBytes]
  congr 1
  unfold Compact.leadBytes at hl ⊢
  by_cases h : Compact.byteSize a.toNat ≤ 3
  · rw [if_pos h] at hl
    rw [if_pos h, if_pos h]
    have hlow : a.toNat % 2 ^ 64 = a.toNat :=
      Nat.mod_eq_of_lt (Nat.lt_of_lt_of_le hx (Nat.pow_le_pow_right (by decide) (by omega)))
    rw [Limbs.toUInt32_shiftLeft _ (by omega) (by rw [BaseUint.toNat_getLow64, hlow]; omega),
      BaseUint.toNat_getLow64, hlow]
  · rw [if_neg h] at hl
    rw [if_neg h, if_neg h, Limbs.toUInt32_eq_ofNat, BaseUint.toNat_getLow64, BaseUint.toNat_shiftRight,
      Nat.mod_eq_of_lt (by omega)]

/-- `GetCompact` writes the compact form of the value. -/
theorem getCompact_eq_encode (a : ArithUint256) (fNegative : Bool) :
    a.getCompact fNegative = Compact.encode a.toNat fNegative := by
  have hm := Compact.expMant_snd_lt a.toNat
  have hzero : (UInt32.ofNat (Compact.expMant a.toNat).2 != 0) = (a.toNat != 0) := by
    rw [Bool.eq_iff_iff, bne_iff_ne, bne_iff_ne, ne_eq, ne_eq, ← UInt32.toNat_inj,
      UInt32.toNat_ofNat', UInt32.toNat_zero, Nat.mod_eq_of_lt (by omega),
      Compact.expMant_snd_eq_zero_iff]
  have hsign : ((UInt32.ofNat (Compact.expMant a.toNat).2 |||
      (Compact.expMant a.toNat).1.toUInt32 <<< 24) &&& 0x007fffff != 0) = (a.toNat != 0) := by
    rw [← Compact.pack_false, Compact.pack_and_mask _ _ hm, hzero]
  simp only [getCompact, compactLead_eq, hsign]
  rfl

/-- The asserts of `GetCompact`: no bit above the mantissa, and `nSize < 256`. -/
theorem compactLead_asserts (a : ArithUint256) :
    (compactLead a).1 &&& ~~~0x007fffff = 0 ∧ (compactLead a).2 < 256 := by
  have hm := Compact.expMant_snd_lt a.toNat
  rw [compactLead_eq]
  refine ⟨?_, ?_⟩
  · apply UInt32.toNat_inj.mp
    apply Nat.eq_of_testBit_eq
    intro j
    have hnot : (~~~0x007fffff : UInt32).toNat = (2 ^ 9 - 1) * 2 ^ 23 := by decide
    rw [UInt32.toNat_and, hnot, UInt32.toNat_ofNat', Nat.mod_eq_of_lt (by omega), Nat.testBit_and,
      Nat.testBit_mul_two_pow, UInt32.toNat_zero, Nat.zero_testBit]
    by_cases hj : 23 ≤ j
    · simp [Nat.testBit_lt_two_pow (Nat.lt_of_lt_of_le hm (Nat.pow_le_pow_right (by decide) hj))]
    · simp [hj]
  · have hs : a.toNat.size ≤ 256 := Nat.size_le.mpr a.toNat_lt
    have he := Compact.expMant_fst_le a.toNat
    unfold Compact.byteSize at he
    show (Compact.expMant a.toNat).1 < 256
    omega

/-- **`SetCompact` reads back what `GetCompact` writes.**  The number is `x` with the bits
below the mantissa's lowest position `8 * (nSize - 3)` cleared, which leaves a mantissa
below `2 ^ 23`; no flag is raised, the number is at most `x`, and it is `x` itself below
`2 ^ 23`.  Writing it again with the sign `SetCompact` reports gives the same word. -/
theorem setCompact_getCompact (x : ArithUint256) (neg : Bool) :
    (setCompact (x.getCompact false)).value.toNat =
        x.toNat / 2 ^ (8 * (Compact.exponent (x.getCompact false) - 3)) *
          2 ^ (8 * (Compact.exponent (x.getCompact false) - 3)) ∧
      x.toNat / 2 ^ (8 * (Compact.exponent (x.getCompact false) - 3)) < 2 ^ 23 ∧
      (setCompact (x.getCompact false)).fNegative = false ∧
      (setCompact (x.getCompact false)).fOverflow = false ∧
      (setCompact (x.getCompact false)).value.toNat ≤ x.toNat ∧
      (x.toNat < 2 ^ 23 → (setCompact (x.getCompact false)).value = x) ∧
      (setCompact (x.getCompact neg)).value.getCompact (setCompact (x.getCompact neg)).fNegative =
        x.getCompact neg := by
  have hx : x.toNat < 2 ^ 256 := x.toNat_lt
  have hmag := Compact.magnitude_encode hx false
  have hle : Compact.magnitude (Compact.encode x.toNat false) ≤ x.toNat := by
    rw [hmag]
    exact Nat.div_mul_le_self _ _
  -- `SetCompact` reads back the magnitude, which is below `2 ^ 256`
  have hval : (setCompact (x.getCompact false)).value.toNat =
      Compact.magnitude (Compact.encode x.toNat false) := by
    rw [toNat_setCompact_value, getCompact_eq_encode, Nat.mod_eq_of_lt (by omega)]
  rw [getCompact_eq_encode, Compact.exponent_encode hx] at *
  refine ⟨hval.trans hmag, ?_, ?_, ?_, hval ▸ hle, ?_, ?_⟩
  · have hlt := Compact.magnitude_lt (Compact.encode x.toNat false)
    rw [hmag, Compact.exponent_encode hx] at hlt
    exact Nat.lt_of_mul_lt_mul_right hlt
  · rw [setCompact_fNegative, Compact.signBit_encode]
    simp
  · rw [setCompact_fOverflow, decide_eq_false_iff_not]
    omega
  · intro hsmall
    apply BaseUint.ext_toNat
    rw [hval, hmag, show (Compact.expMant x.toNat).1 - 3 = 0 by
      have := Compact.expMant_fst_le_three hsmall; omega]
    simp
  · have hv : (setCompact (Compact.encode x.toNat neg)).value.toNat =
        Compact.magnitude (Compact.encode x.toNat neg) := by
      rw [toNat_setCompact_value, Nat.mod_eq_of_lt (lt_of_le_of_lt (by
        rw [Compact.magnitude_encode hx]; exact Nat.div_mul_le_self _ _) hx)]
    rw [getCompact_eq_encode x neg, getCompact_eq_encode, hv, setCompact_fNegative,
      Compact.encode_magnitude_encode hx]

/-- `0xffffff` keeps only its top 16 bits: its leading bytes reach the sign bit, so
`GetCompact` moves to a four-byte exponent and drops the last byte, where keeping the top
23 significant bits would give `0xfffffe`. -/
theorem setCompact_getCompact_ffffff :
    getCompact (BaseUint.ofUInt64 0xffffff) false = 0x0400ffff ∧
      (setCompact (getCompact (BaseUint.ofUInt64 0xffffff) false)).value.toNat = 0xffff00 ∧
      2 ^ 23 ≤ 0xffffff ∧ 0xffffff < 2 ^ 24 ∧ 0xffffff / 2 * 2 = 0xfffffe := by
  decide +kernel

end ArithUint256

end Sumcoin
