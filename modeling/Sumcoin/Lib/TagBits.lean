import Mathlib

/-!
# Two-bit tags held in a pair of words

A table of small tags `0..3` can be stored as two bit planes: the tag at position `b` of
a pair `(lo, hi)` of 64-bit words is bit `b` of `lo` plus twice bit `b` of `hi`.  A tag is
written by replacing bit `b` in both words, `(x & ~(1 << b)) | (c << b)`, and every
position holding one tag value `g` is cleared at once by AND-ing both words with the mask
`(lo ^ m1) | (hi ^ m2)`, where `m1` and `m2` are all ones or all zeros by the bits of `g`:
the mask is zero exactly where both planes agree with `g`.

This module states the effect of both operations position by position.

## Main definitions

* `TagBits.bitAt`, `TagBits.tag`, `TagBits.writeBit`, `TagBits.planeMask`, `TagBits.wipeMask`.
* `TagBits.tagAt`: the tag at a bit of a pair of a table of words.

## Main statements

* `tag_writeBit`, `tagAt_setPair`: writing a tag changes that position only.
* `tag_wipe`: the wipe clears the positions holding the tag and keeps the others.
* `or_shiftRight_and_one`: the presence test reads whether a tag is not zero.
-/

namespace TagBits

/-- Bit `i` of a word. -/
def bitAt (x : UInt64) (i : Nat) : Bool := x.toBitVec.getLsbD i

/-- The tag at position `b` of the pair `(lo, hi)`. -/
def tag (lo hi : UInt64) (b : Nat) : Nat := (bitAt lo b).toNat + 2 * (bitAt hi b).toNat

/-- The tag at bit `b` of the `j`-th pair of words of a table; words beyond the table read
as zero. -/
def tagAt (data : List UInt64) (j b : Nat) : Nat := tag (data.getD (2 * j) 0) (data.getD (2 * j + 1) 0) b

/-- `(x & ~(1 << b)) | (c << b)`: bit `b` of `x` replaced by the bit `c`. -/
def writeBit (x : UInt64) (b : Nat) (c : UInt64) : UInt64 :=
  (x &&& ~~~((1 : UInt64) <<< b.toUInt64)) ||| (c <<< b.toUInt64)

/-- `0 - c` for a bit `c`: all ones when `c` is one, zero otherwise. -/
def planeMask (c : Nat) : UInt64 := 0 - c.toUInt64

/-- `(lo ^ m1) | (hi ^ m2)`: zero where the pair holds the tag whose bit planes are given by
the masks `m1` and `m2`. -/
def wipeMask (lo hi m1 m2 : UInt64) : UInt64 := (lo ^^^ m1) ||| (hi ^^^ m2)

section Bits

@[simp] theorem bitAt_and (x y : UInt64) (i : Nat) : bitAt (x &&& y) i = (bitAt x i && bitAt y i) := by
  simp [bitAt]

@[simp] theorem bitAt_or (x y : UInt64) (i : Nat) : bitAt (x ||| y) i = (bitAt x i || bitAt y i) := by
  simp [bitAt]

@[simp] theorem bitAt_xor (x y : UInt64) (i : Nat) : bitAt (x ^^^ y) i = (bitAt x i ^^ bitAt y i) := by
  simp [bitAt]

@[simp] theorem bitAt_not (x : UInt64) (i : Nat) : bitAt (~~~x) i = (decide (i < 64) && !bitAt x i) := by
  simp [bitAt]

@[simp] theorem bitAt_zero (i : Nat) : bitAt 0 i = false := by
  simp [bitAt]

theorem bitAt_of_le (x : UInt64) {i : Nat} (hi : 64 ≤ i) : bitAt x i = false := by
  simp [bitAt, BitVec.getLsbD_of_ge _ _ hi]

theorem bitAt_shiftLeft (c : UInt64) {b : Nat} (hb : b < 64) (i : Nat) :
    bitAt (c <<< b.toUInt64) i = (decide (i < 64) && decide (b ≤ i) && bitAt c (i - b)) := by
  have hmod : (b.toUInt64.toBitVec % 64).toNat = b := by
    rw [BitVec.toNat_umod, UInt64.toNat_toBitVec]
    simp
    omega
  rw [bitAt, UInt64.toBitVec_shiftLeft, BitVec.shiftLeft_eq', hmod, BitVec.getLsbD_shiftLeft, bitAt]
  congr 2
  by_cases h : i < b
  · simp [h, Nat.not_le.mpr h]
  · simp [h, Nat.le_of_not_lt h]

/-- The bit of a bit-valued word sits at position zero. -/
theorem bitAt_of_lt_two {c : UInt64} (hc : c.toNat < 2) (i : Nat) :
    bitAt c i = (decide (i = 0) && decide (c.toNat = 1)) := by
  have hc' : c = 0 ∨ c = 1 := by
    rcases Nat.lt_succ_iff_lt_or_eq.mp hc with h | h
    · left; exact UInt64.toNat_inj.mp (by simpa using h)
    · right; exact UInt64.toNat_inj.mp (by simpa using h)
  rcases hc' with rfl | rfl
  · simp [bitAt]
  · by_cases h : i = 0 <;> simp [bitAt, h]

theorem bitAt_planeMask {c : Nat} (hc : c < 2) (i : Nat) :
    bitAt (planeMask c) i = (decide (i < 64) && decide (c = 1)) := by
  interval_cases c
  · simp [planeMask, bitAt]
  · rw [planeMask, bitAt, show (0 - (1 : Nat).toUInt64).toBitVec = BitVec.allOnes 64 by decide,
      BitVec.getLsbD_allOnes]
    simp

end Bits

/-- **Writing a bit** changes bit `b` only. -/
theorem bitAt_writeBit (x : UInt64) {b : Nat} (hb : b < 64) {c : UInt64} (hc : c.toNat < 2)
    (i : Nat) : bitAt (writeBit x b c) i = if i = b then decide (c.toNat = 1) else bitAt x i := by
  rw [writeBit, bitAt_or, bitAt_and, bitAt_not, bitAt_shiftLeft _ hb, bitAt_shiftLeft _ hb,
    bitAt_of_lt_two (by decide : (1 : UInt64).toNat < 2), bitAt_of_lt_two hc]
  by_cases hib : i = b
  · subst hib
    simp [hb]
  · rw [if_neg hib]
    by_cases hi : i < 64
    · have : ¬ (i - b = 0 ∧ b ≤ i) := by omega
      cases bitAt x i <;> simp [hi] <;> omega
    · simp [hi, bitAt_of_le x (Nat.le_of_not_lt hi)]

/-- **Writing a tag** `g < 4` at position `b` of both planes changes that position only. -/
theorem tag_writeBit (lo hi : UInt64) {b : Nat} (hb : b < 64) {g : Nat} (hg : g < 4) (i : Nat) :
    tag (writeBit lo b (g &&& 1).toUInt64) (writeBit hi b (g >>> 1).toUInt64) i =
      if i = b then g else tag lo hi i := by
  have h1 : (g &&& 1).toUInt64.toNat = g % 2 := by
    rw [Nat.and_one_is_mod, UInt64.toNat_ofNat', Nat.mod_eq_of_lt (by omega)]
  have h2 : (g >>> 1).toUInt64.toNat = g / 2 := by
    rw [Nat.shiftRight_one, UInt64.toNat_ofNat', Nat.mod_eq_of_lt (by omega)]
  rw [tag, bitAt_writeBit _ hb (by rw [h1]; omega), bitAt_writeBit _ hb (by rw [h2]; omega), h1, h2]
  by_cases hib : i = b
  · rw [if_pos hib, if_pos hib, if_pos hib]
    interval_cases g <;> rfl
  · rw [if_neg hib, if_neg hib, if_neg hib, tag]

/-- **The wipe** of the tag `g` (`0 < g < 4`) clears the positions below 64 holding `g`
and keeps the others. -/
theorem tag_wipe (lo hi : UInt64) {g : Nat} (hg : g < 4) {i : Nat} (hi64 : i < 64) :
    tag (lo &&& wipeMask lo hi (planeMask (g &&& 1)) (planeMask (g >>> 1)))
        (hi &&& wipeMask lo hi (planeMask (g &&& 1)) (planeMask (g >>> 1))) i =
      if tag lo hi i = g then 0 else tag lo hi i := by
  have h1 : g &&& 1 = g % 2 := Nat.and_one_is_mod g
  have h2 : g >>> 1 = g / 2 := Nat.shiftRight_one g
  rw [tag, wipeMask, bitAt_and, bitAt_and, bitAt_or, bitAt_xor, bitAt_xor,
    bitAt_planeMask (by omega), bitAt_planeMask (by omega), h1, h2, tag]
  cases hl : bitAt lo i <;> cases hh : bitAt hi i <;> interval_cases g <;> simp [hi64]

/-- **The presence test** `((lo | hi) >> b) & 1` is set exactly when the tag at `b` is not
zero. -/
theorem or_shiftRight_and_one (lo hi : UInt64) {b : Nat} (hb : b < 64) :
    (((lo ||| hi) >>> b.toUInt64) &&& 1 != 0) = decide (tag lo hi b ≠ 0) := by
  have h : (((lo ||| hi) >>> b.toUInt64) &&& 1).toNat = (lo ||| hi).toNat / 2 ^ b % 2 := by
    rw [UInt64.toNat_and, UInt64.toNat_shiftRight]
    simp [Nat.mod_eq_of_lt hb, Nat.shiftRight_eq_div_pow]
  have hbit : ((((lo ||| hi) >>> b.toUInt64) &&& 1) != 0) = bitAt (lo ||| hi) b := by
    rw [bitAt, BitVec.getLsbD, UInt64.toNat_toBitVec, Nat.testBit_eq_decide_div_mod_eq,
      Bool.eq_iff_iff]
    simp only [bne_iff_ne, ne_eq, ← UInt64.toNat_inj, h, UInt64.toNat_zero, decide_eq_true_eq]
    omega
  rw [hbit, bitAt_or, tag]
  cases bitAt lo b <;> cases bitAt hi b <;> simp

/-! ## Tables of pairs -/

section Table
variable {α : Type*}

theorem getD_set_ne (l : List α) {i j : Nat} (a d : α) (h : i ≠ j) :
    (l.set i a).getD j d = l.getD j d := by
  simp [List.getD_eq_getElem?_getD, List.getElem?_set_ne h]

theorem getD_set_self (l : List α) {i : Nat} (a d : α) (h : i < l.length) :
    (l.set i a).getD i d = a := by
  simp [List.getD_eq_getElem?_getD, h]

end Table

/-- **Writing a tag into a table**: the tag `g` written at bit `b` of both words of the
`j`-th pair changes that position only. -/
theorem tagAt_setPair (data : List UInt64) {j b g : Nat} (hj : 2 * j + 1 < data.length)
    (hb : b < 64) (hg : g < 4) (j' b' : Nat) :
    tagAt ((data.set (2 * j) (writeBit (data.getD (2 * j) 0) b (g &&& 1).toUInt64)).set (2 * j + 1)
        (writeBit (data.getD (2 * j + 1) 0) b (g >>> 1).toUInt64)) j' b' =
      if j' = j ∧ b' = b then g else tagAt data j' b' := by
  by_cases hjj : j' = j
  · subst hjj
    have hlen : 2 * j' + 1 < (data.set (2 * j') (writeBit (data.getD (2 * j') 0) b
        (g &&& 1).toUInt64)).length := by rw [List.length_set]; exact hj
    rw [tagAt, getD_set_ne _ _ _ (by omega : 2 * j' + 1 ≠ 2 * j'), getD_set_self _ _ _ (by omega),
      getD_set_self _ _ _ hlen, tag_writeBit _ _ hb hg]
    by_cases hbb : b' = b
    · simp [hbb]
    · simp [hbb, tagAt]
  · rw [tagAt, getD_set_ne _ _ _ (by omega : 2 * j + 1 ≠ 2 * j'),
      getD_set_ne _ _ _ (by omega : 2 * j ≠ 2 * j'), getD_set_ne _ _ _ (by omega : 2 * j + 1 ≠ 2 * j' + 1),
      getD_set_ne _ _ _ (by omega : 2 * j ≠ 2 * j' + 1), if_neg (fun h => hjj h.1), tagAt]

end TagBits
