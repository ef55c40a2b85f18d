import Sumcoin.Lib.Limbs

/-!
# `base_uint`: fixed-width unsigned integers in 32-bit limbs

`base_uint<BITS>` from `arith_uint256.h` keeps `WIDTH = BITS / 32` words `pn`, least
significant first.  Every operation below follows the source loop over those words;
the lemmas then read each operation back as arithmetic on `toNat`, the value of the
limbs.  The shifts are the ones the compact codec and the division rely on, so they
are proved first, bit by bit.

## Main definitions

* `BaseUint.shiftLeft`, `BaseUint.shiftRight` — `operator<<=` and `operator>>=`.
* `BaseUint.bits` — position of the highest set bit plus one.
* `BaseUint.compareTo`, `BaseUint.equalTo`, `BaseUint.getLow64`.
* `BaseUint.add`, `BaseUint.inc`, `BaseUint.dec`, `BaseUint.neg`, `BaseUint.sub`,
  `BaseUint.mul32`, `BaseUint.mul`, `BaseUint.div` — the carry loops and the
  shift-and-subtract division; `Arith/BaseUintArith.lean` reads them back on `toNat`.
-/

namespace Sumcoin

/-- `base_uint<BITS>`: `WIDTH` words of 32 bits, least significant word first. -/
structure BaseUint (WIDTH : Nat) where
  pn : Vector UInt32 WIDTH
  deriving DecidableEq, Repr

namespace BaseUint

variable {WIDTH : Nat}

/-- The number the limbs denote. -/
def toNat (a : BaseUint WIDTH) : Nat := Limbs.vvalue a.pn

theorem toNat_lt (a : BaseUint WIDTH) : a.toNat < 2 ^ (32 * WIDTH) := Limbs.vvalue_lt a.pn

/-- Limbs are determined by their value. -/
theorem ext_toNat {a b : BaseUint WIDTH} (h : a.toNat = b.toNat) : a = b := by
  cases a; cases b
  congr
  exact Limbs.eq_of_vvalue_eq h

/-- Bit `b` of limb `m` is bit `32 * m + b` of the value. -/
theorem testBit_limb (a : BaseUint WIDTH) {m : Nat} (hm : m < WIDTH) (b : Nat) :
    a.pn[m].toNat.testBit b = (decide (b < 32) && a.toNat.testBit (32 * m + b)) := by
  by_cases hb : b < 32
  · have hj : 32 * m + b < 32 * WIDTH := by omega
    have hdiv : (32 * m + b) / 32 = m := by omega
    have hmod : (32 * m + b) % 32 = b := by omega
    simp [toNat, Limbs.testBit_vvalue, hj, hdiv, hmod, hb]
  · simp [hb, Limbs.testBit_toNat_of_le _ (Nat.le_of_not_lt hb)]

/-- There are no bits above the top limb. -/
theorem testBit_toNat_of_le (a : BaseUint WIDTH) {j : Nat} (hj : 32 * WIDTH ≤ j) :
    a.toNat.testBit j = false :=
  Nat.testBit_lt_two_pow (lt_of_lt_of_le a.toNat_lt (Nat.pow_le_pow_right (by decide) hj))

/-- A bit position below `32 * WIDTH` is a limb and a bit inside it. -/
theorem exists_limb_of_lt {j : Nat} (hj : j < 32 * WIDTH) :
    ∃ m b, m < WIDTH ∧ b < 32 ∧ j = 32 * m + b :=
  ⟨j / 32, j % 32, by omega, by omega, by omega⟩

/-- Over the loop indices `0 .. WIDTH - 1`, a test passed by index `p` alone, with
outcome `v`; when `p` is out of range nothing passes, so `v` must be false there. -/
theorem any_finRange_eq (f : Fin WIDTH → Bool) (p : Nat) (v : Bool)
    (hf : ∀ i : Fin WIDTH, f i = (decide (i.val = p) && v)) (hv : WIDTH ≤ p → v = false) :
    (List.finRange WIDTH).any f = v := by
  by_cases hp : p < WIDTH
  · cases hv' : v
    · simp [List.any_eq_false, hf, hv']
    · exact List.any_eq_true.mpr ⟨⟨p, hp⟩, List.mem_finRange _, by simp [hf, hv']⟩
  · have hv' := hv (Nat.le_of_not_lt hp)
    simp only [List.any_eq_false, List.mem_finRange, true_implies, hf, hv', Bool.and_false]
    simp

/-- A word of the operand shifted left by `sh < 32`, read bit by bit. -/
theorem testBit_limb_shiftLeft (a : BaseUint WIDTH) (i : Fin WIDTH) {sh : Nat} (hsh : sh < 32)
    {b : Nat} (hb : b < 32) :
    (a.pn[i] <<< sh.toUInt32).toNat.testBit b =
      (decide (sh ≤ b) && a.toNat.testBit (32 * i.val + (b - sh))) := by
  rw [Limbs.testBit_shiftLeft _ hsh, Fin.getElem_fin, testBit_limb _ i.isLt]
  by_cases h : sh ≤ b
  · simp [h, hb, show b - sh < 32 by omega]
  · simp [h]

/-- A word of the operand shifted right by `sh < 32`, read bit by bit. -/
theorem testBit_limb_shiftRight (a : BaseUint WIDTH) (i : Fin WIDTH) {sh : Nat} (hsh : sh < 32)
    (b : Nat) :
    (a.pn[i] >>> sh.toUInt32).toNat.testBit b =
      (decide (sh + b < 32) && a.toNat.testBit (32 * i.val + (sh + b))) := by
  rw [Limbs.testBit_shiftRight _ hsh, Fin.getElem_fin, testBit_limb _ i.isLt]

/-! ## Construction -/

/-- `base_uint()`: every limb zero. -/
def zero : BaseUint WIDTH := ⟨Vector.replicate WIDTH 0⟩

@[simp] theorem toNat_zero : (zero : BaseUint WIDTH).toNat = 0 := by
  have h : ∀ n, Limbs.value (List.replicate n 0) = 0 := by
    intro n
    induction n with
    | zero => rfl
    | succ n ih => simp [List.replicate_succ, ih]
  simpa [zero, toNat, Limbs.vvalue] using h WIDTH

/-- `base_uint(uint64_t b)`: the low and high halves of `b` in limbs 0 and 1. -/
def ofUInt64 (b : UInt64) : BaseUint WIDTH :=
  ⟨Vector.ofFn fun i =>
    if i.val = 0 then b.toUInt32 else if i.val = 1 then (b >>> 32).toUInt32 else 0⟩

theorem toNat_ofUInt64 (hw : 2 ≤ WIDTH) (b : UInt64) :
    (ofUInt64 b : BaseUint WIDTH).toNat = b.toNat := by
  apply Nat.eq_of_testBit_eq
  intro j
  by_cases hj : j < 32 * WIDTH
  · obtain ⟨m, c, hm, hc, rfl⟩ := exists_limb_of_lt hj
    have hget : (ofUInt64 b : BaseUint WIDTH).pn[m] =
        if m = 0 then b.toUInt32 else if m = 1 then (b >>> 32).toUInt32 else 0 := by
      simp [ofUInt64]
    have hlimb := testBit_limb (ofUInt64 b : BaseUint WIDTH) hm c
    rw [hget] at hlimb
    simp only [hc, decide_true, Bool.true_and] at hlimb
    rw [← hlimb]
    by_cases h0 : m = 0
    · subst h0
      rw [if_pos rfl, UInt64.toNat_toUInt32, Nat.testBit_mod_two_pow]
      simp [hc]
    · by_cases h1 : m = 1
      · subst h1
        rw [if_neg h0, if_pos rfl, UInt64.toNat_toUInt32, Nat.testBit_mod_two_pow,
          UInt64.toNat_shiftRight, Nat.testBit_shiftRight]
        simp [hc, Nat.add_comm]
      · have hbig : b.toNat < 2 ^ (32 * m + c) :=
          lt_of_lt_of_le b.toNat_lt (Nat.pow_le_pow_right (by decide) (by omega))
        simp [h0, h1, Nat.testBit_lt_two_pow hbig]
  · have hbig : b.toNat < 2 ^ j :=
      lt_of_lt_of_le b.toNat_lt (Nat.pow_le_pow_right (by decide) (by omega))
    rw [testBit_toNat_of_le _ (Nat.le_of_not_lt hj), Nat.testBit_lt_two_pow hbig]

/-! ## Shifts

`operator<<=` clears the result and, for each source limb `i`, ORs the part that
stays into limb `i + k` and the part that spills into limb `i + k + 1`, where
`k = shift / 32` and the in-word shift is `shift % 32`.  `operator>>=` mirrors it. -/

/-- One pass of the `operator<<=` loop, for source limb `i`. -/
def shiftLeftStep (a : Vector UInt32 WIDTH) (k sh : Nat) (pn : Vector UInt32 WIDTH)
    (i : Fin WIDTH) : Vector UInt32 WIDTH :=
  let pn := if sh ≠ 0 then Limbs.orAt pn (i + k + 1) (a[i] >>> (32 - sh).toUInt32) else pn
  Limbs.orAt pn (i + k) (a[i] <<< sh.toUInt32)

/-- `base_uint::operator<<=`. -/
def shiftLeft (a : BaseUint WIDTH) (shift : Nat) : BaseUint WIDTH :=
  ⟨(List.finRange WIDTH).foldl (shiftLeftStep a.pn (shift / 32) (shift % 32))
    (Vector.replicate WIDTH 0)⟩

/-- One pass of the `operator>>=` loop, for source limb `i`. -/
def shiftRightStep (a : Vector UInt32 WIDTH) (k sh : Nat) (pn : Vector UInt32 WIDTH)
    (i : Fin WIDTH) : Vector UInt32 WIDTH :=
  let pn :=
    if k + 1 ≤ i.val ∧ sh ≠ 0 then Limbs.orAt pn (i - k - 1) (a[i] <<< (32 - sh).toUInt32)
    else pn
  if k ≤ i.val then Limbs.orAt pn (i - k) (a[i] >>> sh.toUInt32) else pn

/-- `base_uint::operator>>=`. -/
def shiftRight (a : BaseUint WIDTH) (shift : Nat) : BaseUint WIDTH :=
  ⟨(List.finRange WIDTH).foldl (shiftRightStep a.pn (shift / 32) (shift % 32))
    (Vector.replicate WIDTH 0)⟩

theorem testBit_shiftLeftStep (a : Vector UInt32 WIDTH) (k sh : Nat) (v : Vector UInt32 WIDTH)
    (i : Fin WIDTH) (m : Nat) (hm : m < WIDTH) (b : Nat) :
    (shiftLeftStep a k sh v i)[m].toNat.testBit b =
      (v[m].toNat.testBit b ||
        ((decide (sh ≠ 0) && decide (i.val + k + 1 = m) &&
            (a[i] >>> (32 - sh).toUInt32).toNat.testBit b) ||
          (decide (i.val + k = m) && (a[i] <<< sh.toUInt32).toNat.testBit b))) := by
  unfold shiftLeftStep
  rw [Limbs.testBit_getElem_orAt]
  by_cases hsh : sh ≠ 0
  · rw [if_pos hsh, Limbs.testBit_getElem_orAt]
    simp [hsh, Bool.or_assoc]
  · rw [if_neg hsh]
    simp [hsh]

theorem testBit_shiftRightStep (a : Vector UInt32 WIDTH) (k sh : Nat) (v : Vector UInt32 WIDTH)
    (i : Fin WIDTH) (m : Nat) (hm : m < WIDTH) (b : Nat) :
    (shiftRightStep a k sh v i)[m].toNat.testBit b =
      (v[m].toNat.testBit b ||
        ((decide (k + 1 ≤ i.val ∧ sh ≠ 0) && decide (i.val - k - 1 = m) &&
            (a[i] <<< (32 - sh).toUInt32).toNat.testBit b) ||
          (decide (k ≤ i.val) && decide (i.val - k = m) &&
            (a[i] >>> sh.toUInt32).toNat.testBit b))) := by
  unfold shiftRightStep
  dsimp only
  -- the two writes of the step, each guarded by its own condition
  by_cases h1 : k + 1 ≤ i.val ∧ sh ≠ 0 <;> by_cases h2 : k ≤ i.val
  · rw [if_pos h1, if_pos h2, Limbs.testBit_getElem_orAt, Limbs.testBit_getElem_orAt,
      decide_eq_true h1, decide_eq_true h2]
    simp only [Bool.true_and, Bool.or_assoc]
  · rw [if_pos h1, if_neg h2, Limbs.testBit_getElem_orAt, decide_eq_true h1, decide_eq_false h2]
    simp only [Bool.true_and, Bool.false_and, Bool.or_false]
  · rw [if_neg h1, if_pos h2, Limbs.testBit_getElem_orAt, decide_eq_false h1, decide_eq_true h2]
    simp only [Bool.true_and, Bool.false_and, Bool.false_or]
  · rw [if_neg h1, if_neg h2, decide_eq_false h1, decide_eq_false h2]
    simp only [Bool.false_and, Bool.or_false]

/-- What source limb `i` contributes to bit `b` of limb `m` under `<<= s`: the
operand's bit `32 * m + b - s`, and only from the limb that holds it. -/
theorem shiftLeft_contrib (a : BaseUint WIDTH) (s : Nat) (i : Fin WIDTH) (m : Nat)
    {b : Nat} (hb : b < 32) :
    ((decide (s % 32 ≠ 0) && decide (i.val + s / 32 + 1 = m) &&
        (a.pn[i] >>> (32 - s % 32).toUInt32).toNat.testBit b) ||
      (decide (i.val + s / 32 = m) && (a.pn[i] <<< (s % 32).toUInt32).toNat.testBit b)) =
    (decide (i.val = (32 * m + b - s) / 32) &&
      (decide (s ≤ 32 * m + b) && a.toNat.testBit (32 * m + b - s))) := by
  have hsh : s % 32 < 32 := Nat.mod_lt _ (by decide)
  rw [testBit_limb_shiftLeft a i hsh hb]
  by_cases hA : i.val + s / 32 = m ∧ s % 32 ≤ b
  -- the part of limb `i` that stays in limb `i + k`
  · have hidx : 32 * i.val + (b - s % 32) = 32 * m + b - s := by omega
    rw [decide_eq_true hA.1, decide_eq_true hA.2, decide_eq_false (show ¬ i.val + s / 32 + 1 = m by omega),
      decide_eq_true (show i.val = (32 * m + b - s) / 32 by omega),
      decide_eq_true (show s ≤ 32 * m + b by omega), hidx]
    simp
  · by_cases hB : s % 32 ≠ 0 ∧ i.val + s / 32 + 1 = m ∧ b < s % 32
    -- the part of limb `i` that spills into limb `i + k + 1`
    · have h32 : 32 - s % 32 < 32 := by omega
      have hidx : 32 * i.val + (32 - s % 32 + b) = 32 * m + b - s := by omega
      rw [testBit_limb_shiftRight a i h32, decide_eq_true hB.1, decide_eq_true hB.2.1,
        decide_eq_true (show 32 - s % 32 + b < 32 by omega),
        decide_eq_false (show ¬ i.val + s / 32 = m by omega),
        decide_eq_true (show i.val = (32 * m + b - s) / 32 by omega),
        decide_eq_true (show s ≤ 32 * m + b by omega), hidx]
      simp
    -- no other limb reaches bit `b` of limb `m`
    · have hnot : decide (i.val = (32 * m + b - s) / 32) = false ∨
          decide (s ≤ 32 * m + b) = false := by
        by_cases h : i.val = (32 * m + b - s) / 32 ∧ s ≤ 32 * m + b
        · exfalso; omega
        · rcases not_and_or.mp h with h | h
          · exact .inl (decide_eq_false h)
          · exact .inr (decide_eq_false h)
      have hrhs : (decide (i.val = (32 * m + b - s) / 32) &&
          (decide (s ≤ 32 * m + b) && a.toNat.testBit (32 * m + b - s))) = false := by
        rcases hnot with h | h <;> simp [h]
      rw [hrhs]
      have hstay : (decide (i.val + s / 32 = m) &&
          (decide (s % 32 ≤ b) && a.toNat.testBit (32 * i.val + (b - s % 32)))) = false := by
        by_cases hk : i.val + s / 32 = m
        · simp [hk, show ¬ s % 32 ≤ b by omega]
        · simp [hk]
      rw [hstay, Bool.or_false]
      by_cases hsz : s % 32 = 0
      · simp [hsz]
      · rw [testBit_limb_shiftRight a i (by omega)]
        by_cases hk1 : i.val + s / 32 + 1 = m
        · simp [hk1, show ¬ 32 - s % 32 + b < 32 by omega]
        · simp [hk1]

/-- Bit `b` of limb `m` after `<<= s`: bit `32 * m + b - s` of the operand. -/
theorem testBit_shiftLeft_limb (a : BaseUint WIDTH) (s : Nat) {m : Nat} (hm : m < WIDTH)
    {b : Nat} (hb : b < 32) :
    (a.shiftLeft s).pn[m].toNat.testBit b =
      (decide (s ≤ 32 * m + b) && a.toNat.testBit (32 * m + b - s)) := by
  unfold shiftLeft
  rw [Limbs.testBit_foldl _ _ (testBit_shiftLeftStep a.pn (s / 32) (s % 32))]
  simp only [Vector.getElem_replicate, UInt32.toNat_zero, Nat.zero_testBit, Bool.false_or]
  exact any_finRange_eq _ _ _ (fun i => shiftLeft_contrib a s i m hb) (fun h => by omega)

/-- `operator<<=` is multiplication by `2 ^ shift`, truncated to the width. -/
theorem toNat_shiftLeft (a : BaseUint WIDTH) (s : Nat) :
    (a.shiftLeft s).toNat = a.toNat * 2 ^ s % 2 ^ (32 * WIDTH) := by
  apply Nat.eq_of_testBit_eq
  intro j
  rw [Nat.testBit_mod_two_pow, ← Nat.shiftLeft_eq, Nat.testBit_shiftLeft]
  by_cases hj : j < 32 * WIDTH
  · obtain ⟨m, b, hm, hb, rfl⟩ := exists_limb_of_lt hj
    have hlimb := testBit_limb (a.shiftLeft s) hm b
    simp only [hb, decide_true, Bool.true_and] at hlimb
    rw [← hlimb, testBit_shiftLeft_limb a s hm hb]
    simp [hj]
  · simp [hj, testBit_toNat_of_le _ (Nat.le_of_not_lt hj)]

/-- What source limb `i` contributes to bit `b` of limb `m` under `>>= s`: the
operand's bit `32 * m + b + s`, and only from the limb that holds it. -/
theorem shiftRight_contrib (a : BaseUint WIDTH) (s : Nat) (i : Fin WIDTH) (m : Nat)
    {b : Nat} (hb : b < 32) :
    ((decide (s / 32 + 1 ≤ i.val ∧ s % 32 ≠ 0) && decide (i.val - s / 32 - 1 = m) &&
        (a.pn[i] <<< (32 - s % 32).toUInt32).toNat.testBit b) ||
      (decide (s / 32 ≤ i.val) && decide (i.val - s / 32 = m) &&
        (a.pn[i] >>> (s % 32).toUInt32).toNat.testBit b)) =
    (decide (i.val = (32 * m + b + s) / 32) && a.toNat.testBit (32 * m + b + s)) := by
  have hsh : s % 32 < 32 := Nat.mod_lt _ (by decide)
  rw [testBit_limb_shiftRight a i hsh]
  by_cases hA : s / 32 ≤ i.val ∧ i.val - s / 32 = m ∧ s % 32 + b < 32
  -- limb `i` lands in limb `i - k`
  · have hidx : 32 * i.val + (s % 32 + b) = 32 * m + b + s := by omega
    have hspill : (decide (s / 32 + 1 ≤ i.val ∧ s % 32 ≠ 0) && decide (i.val - s / 32 - 1 = m)) =
        false := by
      by_cases h : s / 32 + 1 ≤ i.val ∧ s % 32 ≠ 0
      · rw [decide_eq_true h, decide_eq_false (show ¬ i.val - s / 32 - 1 = m by omega)]; rfl
      · rw [decide_eq_false h]; rfl
    rw [hspill, decide_eq_true hA.1, decide_eq_true hA.2.1, decide_eq_true hA.2.2,
      decide_eq_true (show i.val = (32 * m + b + s) / 32 by omega), hidx]
    simp
  · by_cases hB : (s / 32 + 1 ≤ i.val ∧ s % 32 ≠ 0) ∧ i.val - s / 32 - 1 = m ∧ 32 - s % 32 ≤ b
    -- the low bits of limb `i` land in limb `i - k - 1`
    · have h32 : 32 - s % 32 < 32 := by omega
      have hidx : 32 * i.val + (b - (32 - s % 32)) = 32 * m + b + s := by omega
      rw [testBit_limb_shiftLeft a i h32 hb, decide_eq_true hB.1, decide_eq_true hB.2.1,
        decide_eq_true hB.2.2, decide_eq_false (show ¬ i.val - s / 32 = m by omega),
        decide_eq_true (show i.val = (32 * m + b + s) / 32 by omega), hidx]
      simp
    -- no other limb reaches bit `b` of limb `m`
    · rw [decide_eq_false (show ¬ i.val = (32 * m + b + s) / 32 by omega), Bool.false_and]
      have hstay : (decide (s / 32 ≤ i.val) && decide (i.val - s / 32 = m) &&
          (decide (s % 32 + b < 32) && a.toNat.testBit (32 * i.val + (s % 32 + b)))) = false := by
        by_cases hk : s / 32 ≤ i.val ∧ i.val - s / 32 = m
        · simp [hk.1, hk.2, show ¬ s % 32 + b < 32 by omega]
        · rcases not_and_or.mp hk with hk | hk <;> simp [hk]
      rw [hstay, Bool.or_false]
      by_cases hk : (s / 32 + 1 ≤ i.val ∧ s % 32 ≠ 0) ∧ i.val - s / 32 - 1 = m
      · rw [testBit_limb_shiftLeft a i (by omega) hb]
        simp [hk.1.1, hk.1.2, hk.2, show ¬ 32 - s % 32 ≤ b by omega]
      · rcases not_and_or.mp hk with hk | hk
        · rw [decide_eq_false hk]; simp
        · rw [decide_eq_false hk]; simp

/-- Bit `b` of limb `m` after `>>= s`: bit `32 * m + b + s` of the operand. -/
theorem testBit_shiftRight_limb (a : BaseUint WIDTH) (s : Nat) {m : Nat} (hm : m < WIDTH)
    {b : Nat} (hb : b < 32) :
    (a.shiftRight s).pn[m].toNat.testBit b = a.toNat.testBit (32 * m + b + s) := by
  unfold shiftRight
  rw [Limbs.testBit_foldl _ _ (testBit_shiftRightStep a.pn (s / 32) (s % 32))]
  simp only [Vector.getElem_replicate, UInt32.toNat_zero, Nat.zero_testBit, Bool.false_or]
  exact any_finRange_eq _ _ _ (fun i => shiftRight_contrib a s i m hb)
    (fun h => testBit_toNat_of_le a (by omega))

/-- `operator>>=` is division by `2 ^ shift`. -/
theorem toNat_shiftRight (a : BaseUint WIDTH) (s : Nat) :
    (a.shiftRight s).toNat = a.toNat / 2 ^ s := by
  apply Nat.eq_of_testBit_eq
  intro j
  rw [Nat.testBit_div_two_pow]
  by_cases hj : j < 32 * WIDTH
  · obtain ⟨m, b, hm, hb, rfl⟩ := exists_limb_of_lt hj
    have hlimb := testBit_limb (a.shiftRight s) hm b
    simp only [hb, decide_true, Bool.true_and] at hlimb
    rw [← hlimb, testBit_shiftRight_limb a s hm hb]
  · rw [testBit_toNat_of_le _ (Nat.le_of_not_lt hj), testBit_toNat_of_le _ (by omega)]

/-! ## Bit length

`bits()` scans the limbs from the top for the first nonzero one and then scans that
limb's bits from 31 down to 1; reaching bit 0 means the limb is exactly bit 0. -/

/-- The inner loop of `bits()`: the highest of bits `n, n - 1, ..., 1` of `x` that is
set, or `0` when none is. -/
def topBit (x : UInt32) : Nat → Nat
  | 0 => 0
  | n + 1 => if x &&& ((1 : UInt32) <<< (n + 1).toUInt32) ≠ 0 then n + 1 else topBit x n

/-- The outer loop of `bits()` over limbs `pos - 1` down to `0`. -/
def bitsFrom (pn : Vector UInt32 WIDTH) : (pos : Nat) → pos ≤ WIDTH → Nat
  | 0, _ => 0
  | pos + 1, h =>
    if pn[pos] ≠ 0 then 32 * pos + topBit pn[pos] 31 + 1 else bitsFrom pn pos (by omega)

/-- `base_uint::bits`: the position of the highest set bit plus one, or zero. -/
def bits (a : BaseUint WIDTH) : Nat := bitsFrom a.pn WIDTH le_rfl

/-- For a nonzero word whose bits above `n` are clear, `topBit` finds the highest bit. -/
theorem topBit_add_one (x : UInt32) (hx : x ≠ 0) :
    ∀ n, n < 32 → (∀ i, n < i → x.toNat.testBit i = false) → topBit x n + 1 = x.toNat.size := by
  intro n
  induction n with
  | zero =>
    intro _ habove
    have h0 : x.toNat.testBit 0 = true := by
      by_contra h
      apply hx
      apply UInt32.toNat_inj.mp
      apply Nat.eq_of_testBit_eq
      intro i
      rcases Nat.eq_zero_or_pos i with rfl | hi
      · simpa using h
      · simpa using habove i hi
    rw [Limbs.size_eq_of_testBit h0 habove]
    rfl
  | succ n ih =>
    intro hn habove
    unfold topBit
    by_cases hbit : x.toNat.testBit (n + 1) = true
    · rw [if_pos ((Limbs.and_one_shiftLeft_ne_zero x hn).mpr hbit),
        Limbs.size_eq_of_testBit hbit habove]
    · rw [if_neg (fun h => hbit ((Limbs.and_one_shiftLeft_ne_zero x hn).mp h))]
      apply ih (by omega)
      intro i hi
      rcases Nat.lt_or_eq_of_le (Nat.succ_le_of_lt hi) with hi | rfl
      · exact habove i hi
      · simpa using hbit

/-- `bitsFrom` is the bit length of the limbs below `pos`. -/
theorem bitsFrom_eq (pn : Vector UInt32 WIDTH) :
    ∀ pos (h : pos ≤ WIDTH), bitsFrom pn pos h = (Limbs.value (pn.toList.take pos)).size := by
  intro pos
  induction pos with
  | zero => intro _; simp [bitsFrom]
  | succ pos ih =>
    intro h
    have hlen : pos < pn.toList.length := by simp; omega
    have hlow : Limbs.value (pn.toList.take pos) < 2 ^ (32 * pos) := by
      have := Limbs.value_lt (pn.toList.take pos)
      rwa [List.length_take, Nat.min_eq_left (by simp; omega)] at this
    rw [Limbs.value_take_succ _ hlen, bitsFrom]
    simp only [Vector.getElem_toList]
    by_cases hw : pn[pos] = 0
    · rw [if_neg (not_not.mpr hw), ih, hw]
      simp
    · rw [if_pos hw, Limbs.size_add_two_pow_mul hlow
        (fun h0 => hw (UInt32.toNat_inj.mp (by rw [h0]; rfl))),
        Nat.add_assoc, topBit_add_one _ hw 31 (by decide)
          (fun i hi => Limbs.testBit_toNat_of_le _ (by omega))]

/-- `bits()` is the bit length of the value. -/
theorem bits_eq_size (a : BaseUint WIDTH) : a.bits = a.toNat.size := by
  rw [bits, bitsFrom_eq, List.take_of_length_le (by simp)]
  rfl

/-! ## Low word -/

/-- `base_uint::GetLow64`: limbs 0 and 1; the source asserts `WIDTH >= 2`. -/
def getLow64 (a : BaseUint WIDTH) (h : 2 ≤ WIDTH) : UInt64 :=
  a.pn[0].toUInt64 ||| (a.pn[1].toUInt64 <<< 32)

theorem toNat_getLow64 (a : BaseUint WIDTH) (h : 2 ≤ WIDTH) :
    (a.getLow64 h).toNat = a.toNat % 2 ^ 64 := by
  apply Nat.eq_of_testBit_eq
  intro j
  rw [getLow64, UInt64.toNat_or, Nat.testBit_or, UInt64.toNat_shiftLeft, Nat.testBit_mod_two_pow,
    Nat.testBit_mod_two_pow, UInt32.toNat_toUInt64, UInt32.toNat_toUInt64,
    show (32 : UInt64).toNat % 64 = 32 from rfl, Nat.testBit_shiftLeft,
    testBit_limb a (show 0 < WIDTH by omega), testBit_limb a (show 1 < WIDTH by omega)]
  by_cases hj : j < 32
  · simp [hj, show j < 64 by omega, show ¬ 32 ≤ j by omega]
  · by_cases hj' : j < 64
    · have : 32 * 1 + (j - 32) = j := by omega
      simp [hj, hj', show 32 ≤ j by omega, show j - 32 < 32 by omega, this]
    · simp [hj, hj']

/-! ## Comparison -/

/-- A higher limb that is smaller decides the comparison, whatever the lower limbs. -/
theorem add_two_pow_mul_lt {x y p q k : Nat} (hx : x < 2 ^ k) (hpq : p < q) :
    x + 2 ^ k * p < y + 2 ^ k * q :=
  calc x + 2 ^ k * p < 2 ^ k * (p + 1) := by rw [Nat.mul_add]; omega
    _ ≤ 2 ^ k * q := Nat.mul_le_mul_left _ hpq
    _ ≤ y + 2 ^ k * q := Nat.le_add_left _ _

/-- The loop of `CompareTo` over limbs `i - 1` down to `0`. -/
def compareFrom (a b : Vector UInt32 WIDTH) : (i : Nat) → i ≤ WIDTH → Int
  | 0, _ => 0
  | i + 1, h =>
    if a[i] < b[i] then -1 else if a[i] > b[i] then 1 else compareFrom a b i (by omega)

/-- `base_uint::CompareTo`: `-1`, `0` or `1`. -/
def compareTo (a b : BaseUint WIDTH) : Int := compareFrom a.pn b.pn WIDTH le_rfl

theorem compareFrom_eq (a b : Vector UInt32 WIDTH) :
    ∀ i (h : i ≤ WIDTH), compareFrom a b i h =
      if Limbs.value (a.toList.take i) < Limbs.value (b.toList.take i) then -1
      else if Limbs.value (b.toList.take i) < Limbs.value (a.toList.take i) then 1 else 0 := by
  intro i
  induction i with
  | zero => intro _; simp [compareFrom]
  | succ i ih =>
    intro h
    have hla : i < a.toList.length := by simp; omega
    have hlb : i < b.toList.length := by simp; omega
    have hlow : ∀ v : Vector UInt32 WIDTH, Limbs.value (v.toList.take i) < 2 ^ (32 * i) := by
      intro v
      have := Limbs.value_lt (v.toList.take i)
      rwa [List.length_take, Nat.min_eq_left (by simp; omega)] at this
    rw [Limbs.value_take_succ _ hla, Limbs.value_take_succ _ hlb, compareFrom]
    simp only [Vector.getElem_toList]
    by_cases hlt : a[i] < b[i]
    · have hlt' : a[i].toNat < b[i].toNat := UInt32.lt_iff_toNat_lt.mp hlt
      rw [if_pos hlt, if_pos (add_two_pow_mul_lt (hlow a) hlt')]
    · by_cases hgt : a[i] > b[i]
      · have hgt' : b[i].toNat < a[i].toNat := UInt32.lt_iff_toNat_lt.mp hgt
        have hnot := @add_two_pow_mul_lt _ (Limbs.value (a.toList.take i)) _ _ _ (hlow b) hgt'
        rw [if_neg hlt, if_pos hgt, if_neg (by omega), if_pos hnot]
      · have heq : a[i] = b[i] := by
          have h1 := UInt32.lt_iff_toNat_lt.not.mp hlt
          have h2 := UInt32.lt_iff_toNat_lt.not.mp hgt
          exact UInt32.toNat_inj.mp (by omega)
        rw [if_neg hlt, if_neg hgt, ih, heq]
        simp only [Nat.add_lt_add_iff_right]

/-- `CompareTo` is the comparison of the values. -/
theorem compareTo_eq (a b : BaseUint WIDTH) :
    a.compareTo b = if a.toNat < b.toNat then -1 else if b.toNat < a.toNat then 1 else 0 := by
  rw [compareTo, compareFrom_eq, List.take_of_length_le (by simp),
    List.take_of_length_le (by simp)]
  rfl

/-- `operator<`. -/
def lt (a b : BaseUint WIDTH) : Bool := a.compareTo b < 0
/-- `operator>`. -/
def gt (a b : BaseUint WIDTH) : Bool := a.compareTo b > 0
/-- `operator>=`. -/
def ge (a b : BaseUint WIDTH) : Bool := a.compareTo b ≥ 0

@[simp] theorem lt_iff (a b : BaseUint WIDTH) : a.lt b = true ↔ a.toNat < b.toNat := by
  rw [lt, compareTo_eq]
  split_ifs <;> simp_all

@[simp] theorem gt_iff (a b : BaseUint WIDTH) : a.gt b = true ↔ b.toNat < a.toNat := by
  rw [gt, compareTo_eq]
  split_ifs <;> simp_all
  omega

@[simp] theorem ge_iff (a b : BaseUint WIDTH) : a.ge b = true ↔ b.toNat ≤ a.toNat := by
  rw [ge, compareTo_eq]
  split_ifs <;> simp_all

/-- The loop of `EqualTo` over the limbs `n - 1` down to `2`. -/
def highLimbsZero (pn : Vector UInt32 WIDTH) : (n : Nat) → n ≤ WIDTH → Bool
  | 0, _ => true
  | n + 1, h => if n < 2 then true else if pn[n] ≠ 0 then false else highLimbsZero pn n (by omega)

/-- `base_uint::EqualTo(uint64_t)`: the high limbs are zero and limbs 1 and 0 hold the
halves of `b`. -/
def equalTo (a : BaseUint WIDTH) (b : UInt64) (h : 2 ≤ WIDTH) : Bool :=
  if !highLimbsZero a.pn WIDTH le_rfl then false
  else if a.pn[1].toUInt64 ≠ b >>> 32 then false
  else if a.pn[0].toUInt64 ≠ b &&& 0xffffffff then false
  else true

theorem highLimbsZero_iff (pn : Vector UInt32 WIDTH) :
    ∀ n (h : n ≤ WIDTH), highLimbsZero pn n h = true ↔
      ∀ i (hi : i < WIDTH), i < n → 2 ≤ i → pn[i] = 0 := by
  intro n
  induction n with
  | zero => intro _; simp [highLimbsZero]
  | succ n ih =>
    intro h
    rw [highLimbsZero]
    by_cases hn : n < 2
    · simp only [hn, if_true, true_iff]
      intro i hi hin h2; omega
    · rw [if_neg hn]
      by_cases hz : pn[n] ≠ 0
      · rw [if_pos hz]
        simp only [Bool.false_eq_true, false_iff, not_forall]
        exact ⟨n, by omega, by omega, by omega, hz⟩
      · rw [if_neg hz, ih]
        constructor
        · intro hall i hi hin h2
          rcases Nat.lt_or_eq_of_le (Nat.le_of_lt_succ hin) with hin | rfl
          · exact hall i hi hin h2
          · exact not_not.mp hz
        · intro hall i hi hin h2
          exact hall i hi (by omega) h2

theorem getElem_ofUInt64 (b : UInt64) {i : Nat} (hi : i < WIDTH) :
    (ofUInt64 b : BaseUint WIDTH).pn[i] =
      if i = 0 then b.toUInt32 else if i = 1 then (b >>> 32).toUInt32 else 0 := by
  simp [ofUInt64]

/-- `EqualTo` compares limb by limb with `base_uint(b)`. -/
theorem equalTo_iff (a : BaseUint WIDTH) (b : UInt64) (h : 2 ≤ WIDTH) :
    a.equalTo b h = true ↔ a = ofUInt64 b := by
  have hhi : (a.pn[1].toUInt64 = b >>> 32) ↔ a.pn[1] = (b >>> 32).toUInt32 := by
    have hlt : (b >>> 32).toNat < 2 ^ 32 := by
      rw [UInt64.toNat_shiftRight, show (32 : UInt64).toNat % 64 = 32 from rfl,
        Nat.shiftRight_eq_div_pow, Nat.div_lt_iff_lt_mul (by decide)]
      exact b.toNat_lt
    rw [← UInt64.toNat_inj, ← UInt32.toNat_inj, UInt32.toNat_toUInt64, UInt64.toNat_toUInt32,
      Nat.mod_eq_of_lt hlt]
  have hlo : (a.pn[0].toUInt64 = b &&& 0xffffffff) ↔ a.pn[0] = b.toUInt32 := by
    rw [← UInt64.toNat_inj, ← UInt32.toNat_inj, UInt32.toNat_toUInt64, UInt64.toNat_toUInt32,
      UInt64.toNat_and, show (0xffffffff : UInt64).toNat = 2 ^ 32 - 1 from rfl,
      Nat.and_two_pow_sub_one_eq_mod]
  have hvec : a = ofUInt64 b ↔ ∀ i (hi : i < WIDTH), a.pn[i] = (ofUInt64 b : BaseUint WIDTH).pn[i] := by
    constructor
    · rintro rfl i hi; rfl
    · intro hall
      cases a
      simp only [ofUInt64, mk.injEq]
      ext i hi
      simpa [ofUInt64] using congrArg UInt32.toNat (hall i hi)
  rw [hvec, equalTo]
  simp only [getElem_ofUInt64]
  by_cases hz : highLimbsZero a.pn WIDTH le_rfl = true
  · have hz' := (highLimbsZero_iff a.pn WIDTH le_rfl).mp hz
    simp only [hz, Bool.not_true, Bool.false_eq_true, if_false, ne_eq, ite_not]
    constructor
    · intro hc i hi
      by_cases h1 : a.pn[1].toUInt64 = b >>> 32
      · by_cases h0 : a.pn[0].toUInt64 = b &&& 0xffffffff
        · rcases Nat.lt_or_ge i 2 with hi2 | hi2
          · rcases (show i = 0 ∨ i = 1 by omega) with rfl | rfl
            · simpa using hlo.mp h0
            · simpa using hhi.mp h1
          · simp [show i ≠ 0 by omega, show i ≠ 1 by omega, hz' i hi (by omega) hi2]
        · simp [h1, h0] at hc
      · simp [h1] at hc
    · intro hall
      have h1 := hhi.mpr (by simpa using hall 1 (by omega))
      have h0 := hlo.mpr (by simpa using hall 0 (by omega))
      simp [h1, h0]
  · have hz' : ¬ ∀ i (hi : i < WIDTH), i < WIDTH → 2 ≤ i → a.pn[i] = 0 :=
      fun hall => hz ((highLimbsZero_iff a.pn WIDTH le_rfl).mpr hall)
    simp only [Bool.not_eq_true] at hz
    simp only [hz, Bool.not_false, if_true, Bool.false_eq_true, false_iff]
    intro hall
    apply hz'
    intro i hi _ h2
    simpa [show i ≠ 0 by omega, show i ≠ 1 by omega] using hall i hi

/-- `operator==(base_uint, uint64_t)` is equality of values. -/
theorem equalTo_iff_toNat (a : BaseUint WIDTH) (b : UInt64) (h : 2 ≤ WIDTH) :
    a.equalTo b h = true ↔ a.toNat = b.toNat := by
  rw [equalTo_iff, ← toNat_ofUInt64 h b]
  exact ⟨fun he => he ▸ rfl, ext_toNat⟩

/-! ## Ring operations

These follow the source loops; `GetBlockTrust` and `AddToBlockIndex` use them. -/

/-- `operator~`: every limb complemented. -/
def bnot (a : BaseUint WIDTH) : BaseUint WIDTH := ⟨a.pn.map (~~~ ·)⟩

/-- One pass of the `operator+=` loop: add limb `i` and the carry in 64 bits. -/
def addStep (b : Vector UInt32 WIDTH) (st : Vector UInt32 WIDTH × UInt64) (i : Fin WIDTH) :
    Vector UInt32 WIDTH × UInt64 :=
  let n := st.2 + st.1[i].toUInt64 + b[i].toUInt64
  (st.1.set i (n &&& 0xffffffff).toUInt32, n >>> 32)

/-- `base_uint::operator+=`. -/
def add (a b : BaseUint WIDTH) : BaseUint WIDTH :=
  ⟨((List.finRange WIDTH).foldl (addStep b.pn) (a.pn, 0)).1⟩

/-- The `operator++` loop: increment limb `i`, and carry on while it wrapped to zero.
`fuel` counts the limbs left, so the loop stops at `WIDTH` as the source's `i < WIDTH`. -/
def incFrom (pn : Vector UInt32 WIDTH) (i : Nat) : (fuel : Nat) → Vector UInt32 WIDTH
  | 0 => pn
  | fuel + 1 =>
    if h : i < WIDTH then
      let pn' := pn.set i (pn[i] + 1) h
      if pn'[i] = 0 then incFrom pn' (i + 1) fuel else pn'
    else pn

/-- `base_uint::operator++` (prefix). -/
def inc (a : BaseUint WIDTH) : BaseUint WIDTH := ⟨incFrom a.pn 0 WIDTH⟩

/-- The `operator--` loop: decrement limb `i`, and borrow on while it wrapped to
`0xffffffff`. -/
def decFrom (pn : Vector UInt32 WIDTH) (i : Nat) : (fuel : Nat) → Vector UInt32 WIDTH
  | 0 => pn
  | fuel + 1 =>
    if h : i < WIDTH then
      let pn' := pn.set i (pn[i] - 1) h
      if pn'[i] = 0xffffffff then decFrom pn' (i + 1) fuel else pn'
    else pn

/-- `base_uint::operator--` (prefix). -/
def dec (a : BaseUint WIDTH) : BaseUint WIDTH := ⟨decFrom a.pn 0 WIDTH⟩

/-- Unary `operator-`: complement and increment. -/
def neg (a : BaseUint WIDTH) : BaseUint WIDTH := inc (bnot a)

/-- `base_uint::operator-=`: `*this += -b`. -/
def sub (a b : BaseUint WIDTH) : BaseUint WIDTH := add a (neg b)

/-- One pass of the `operator*=(uint32_t)` loop. -/
def mul32Step (b32 : UInt32) (st : Vector UInt32 WIDTH × UInt64) (i : Fin WIDTH) :
    Vector UInt32 WIDTH × UInt64 :=
  let n := st.2 + b32.toUInt64 * st.1[i].toUInt64
  (st.1.set i (n &&& 0xffffffff).toUInt32, n >>> 32)

/-- `base_uint::operator*=(uint32_t)`. -/
def mul32 (a : BaseUint WIDTH) (b32 : UInt32) : BaseUint WIDTH :=
  ⟨((List.finRange WIDTH).foldl (mul32Step b32) (a.pn, 0)).1⟩

/-- One pass of the inner loop of `operator*=(const base_uint&)`: limb `i + j` of the
product gains `pn[j] * b.pn[i]` and the carry, while `i + j < WIDTH`. -/
def mulStep (pn b : Vector UInt32 WIDTH) (j : Nat) (st : Vector UInt32 WIDTH × UInt64) (i : Nat) :
    Vector UInt32 WIDTH × UInt64 :=
  if h : i + j < WIDTH then
    let n := st.2 + st.1[i + j].toUInt64 + pn[j].toUInt64 * b[i].toUInt64
    (st.1.set (i + j) (n &&& 0xffffffff).toUInt32, n >>> 32)
  else st

/-- `base_uint::operator*=(const base_uint&)`: row `j` adds `pn[j] * b` shifted by `j`
limbs into the zero-initialised product, each row with a fresh carry that is dropped at
the top. -/
def mul (a b : BaseUint WIDTH) : BaseUint WIDTH :=
  ⟨(List.range WIDTH).foldl
    (fun acc j => ((List.range (WIDTH - j)).foldl (mulStep a.pn b.pn j) (acc, 0)).1) zero.pn⟩

/-- The `while (shift >= 0)` loop of `operator/=`; `n` is the number of passes left,
so the pass at hand has `shift = n - 1`. -/
def divLoop (num div quot : BaseUint WIDTH) : Nat → BaseUint WIDTH
  | 0 => quot
  | n + 1 =>
    let shift := n
    if num.ge div then
      divLoop (num.sub div) (div.shiftRight 1)
        ⟨Limbs.orAt quot.pn (shift / 32) ((1 : UInt32) <<< (shift % 32).toUInt32)⟩ n
    else divLoop num (div.shiftRight 1) quot n

/-- `base_uint::operator/=`, which throws `uint_error("Division by zero")`. -/
def div (a b : BaseUint WIDTH) : Except String (BaseUint WIDTH) :=
  let numBits := a.bits
  let divBits := b.bits
  if divBits = 0 then .error "Division by zero"
  else if divBits > numBits then .ok zero
  else
    let shift := numBits - divBits
    .ok (divLoop a (b.shiftLeft shift) zero (shift + 1))

end BaseUint

end Sumcoin
