import Sumcoin.Lib.Limbs

/-!
# Compact block filters: `blockfilter.cpp`

A Golomb-coded set maps each element's SipHash into `[0, F)` with `MapIntoRange`, the
high 64 bits of the product `hash * F`.  The source computes that product in
`unsigned __int128` where the compiler has it, and otherwise from the 32-bit halves of
both operands; filters are portable only if the two agree on every input.

## Main definitions

* `mapIntoRangeInt128`: the `__int128` branch, over `BitVec 128`.
* `mapIntoRangePortable`: the branch built from 32-bit halves, over `UInt64`.

## Main statements

* `toNat_mapIntoRangeInt128`, `toNat_mapIntoRangePortable`: both are `⌊x * n / 2^64⌋`.
-/

namespace Sumcoin.BlockFilter

/-! ## `MapIntoRange` -/

/-- `MapIntoRange(x, n)` with `__SIZEOF_INT128__`: the 128-bit product shifted down by 64
and narrowed back to 64 bits. -/
def mapIntoRangeInt128 (x n : UInt64) : UInt64 :=
  ⟨((x.toBitVec.setWidth 128 * n.toBitVec.setWidth 128) >>> 64).setWidth 64⟩

/-- `MapIntoRange(x, n)` without `__int128`: the four products of 32-bit halves, and the
carry out of the 34-bit middle column. -/
def mapIntoRangePortable (x n : UInt64) : UInt64 :=
  let x_hi := x >>> 32
  let x_lo := x &&& 0xFFFFFFFF
  let n_hi := n >>> 32
  let n_lo := n &&& 0xFFFFFFFF
  let ac := x_hi * n_hi
  let ad := x_hi * n_lo
  let bc := x_lo * n_hi
  let bd := x_lo * n_lo
  let mid34 := (bd >>> 32) + (bc &&& 0xFFFFFFFF) + (ad &&& 0xFFFFFFFF)
  let upper64 := ac + (bc >>> 32) + (ad >>> 32) + (mid34 >>> 32)
  upper64

section Words
variable {a b : UInt64}

/-- A 64-bit sum that does not wrap. -/
theorem toNat_add_of_lt (h : a.toNat + b.toNat < 2 ^ 64) : (a + b).toNat = a.toNat + b.toNat := by
  rw [UInt64.toNat_add, Nat.mod_eq_of_lt h]

/-- A 64-bit product of two 32-bit halves does not wrap. -/
theorem toNat_mul_of_lt (ha : a.toNat < 2 ^ 32) (hb : b.toNat < 2 ^ 32) :
    (a * b).toNat = a.toNat * b.toNat := by
  rw [UInt64.toNat_mul, Nat.mod_eq_of_lt]
  calc a.toNat * b.toNat < 2 ^ 32 * 2 ^ 32 := Nat.mul_lt_mul'' ha hb
    _ = 2 ^ 64 := by norm_num

theorem toNat_shiftRight_32_lt (a : UInt64) : (a >>> 32).toNat < 2 ^ 32 := by
  rw [Limbs.toNat_shiftRight_32]
  exact Nat.div_lt_of_lt_mul (by simpa using a.toNat_lt)

theorem toNat_and_mask_lt (a : UInt64) : (a &&& 0xFFFFFFFF).toNat < 2 ^ 32 := by
  rw [Limbs.toNat_and_mask]
  exact Nat.mod_lt _ (by norm_num)

end Words

/-- The high half of a product of two 64-bit numbers is below `2 ^ 64`. -/
theorem mul_div_lt (x n : UInt64) : x.toNat * n.toNat / 2 ^ 64 < 2 ^ 64 :=
  Nat.div_lt_of_lt_mul (Nat.mul_lt_mul'' x.toNat_lt n.toNat_lt)

/-- The `__int128` branch is the high half of the exact product: the product of two
64-bit numbers fits in 128 bits. -/
theorem toNat_mapIntoRangeInt128 (x n : UInt64) :
    (mapIntoRangeInt128 x n).toNat = x.toNat * n.toNat / 2 ^ 64 := by
  have hprod : x.toNat * n.toNat < 2 ^ 128 := by
    calc x.toNat * n.toNat < 2 ^ 64 * 2 ^ 64 := Nat.mul_lt_mul'' x.toNat_lt n.toNat_lt
      _ = 2 ^ 128 := by norm_num
  have hx : x.toNat < 2 ^ 128 := lt_trans x.toNat_lt (by norm_num)
  have hn : n.toNat < 2 ^ 128 := lt_trans n.toNat_lt (by norm_num)
  simp only [mapIntoRangeInt128, UInt64.toNat_ofBitVec, BitVec.toNat_setWidth,
    BitVec.toNat_ushiftRight, BitVec.toNat_mul, UInt64.toNat_toBitVec, Nat.mod_eq_of_lt hx,
    Nat.mod_eq_of_lt hn, Nat.mod_eq_of_lt hprod, Nat.shiftRight_eq_div_pow,
    Nat.mod_eq_of_lt (mul_div_lt x n)]

/-- The middle column: the carry of the low product and the low halves of the cross
products, three numbers below `2 ^ 32`, do not wrap. -/
theorem toNat_mid34 (ad bc bd : UInt64) :
    ((bd >>> 32) + (bc &&& 0xFFFFFFFF) + (ad &&& 0xFFFFFFFF)).toNat =
      bd.toNat / 2 ^ 32 + bc.toNat % 2 ^ 32 + ad.toNat % 2 ^ 32 := by
  have h1 := toNat_shiftRight_32_lt bd
  have h2 := toNat_and_mask_lt bc
  have h3 := toNat_and_mask_lt ad
  have h12 := toNat_add_of_lt (a := bd >>> 32) (b := bc &&& 0xFFFFFFFF) (by omega)
  rw [toNat_add_of_lt (by rw [h12]; omega), h12, Limbs.toNat_shiftRight_32, Limbs.toNat_and_mask,
    Limbs.toNat_and_mask]

/-- The portable branch is the high half of the exact product: no partial product and no
partial sum wraps, and the schoolbook identity assembles them. -/
theorem toNat_mapIntoRangePortable (x n : UInt64) :
    (mapIntoRangePortable x n).toNat = x.toNat * n.toNat / 2 ^ 64 := by
  simp only [mapIntoRangePortable]
  -- the four products of halves do not wrap
  have hac := toNat_mul_of_lt (toNat_shiftRight_32_lt x) (toNat_shiftRight_32_lt n)
  have had := toNat_mul_of_lt (toNat_shiftRight_32_lt x) (toNat_and_mask_lt n)
  have hbc := toNat_mul_of_lt (toNat_and_mask_lt x) (toNat_shiftRight_32_lt n)
  have hbd := toNat_mul_of_lt (toNat_and_mask_lt x) (toNat_and_mask_lt n)
  simp only [Limbs.toNat_shiftRight_32, Limbs.toNat_and_mask] at hac had hbc hbd
  generalize (x >>> 32) * (n >>> 32) = ac at hac ⊢
  generalize (x >>> 32) * (n &&& (0xFFFFFFFF : UInt64)) = ad at had ⊢
  generalize (x &&& (0xFFFFFFFF : UInt64)) * (n >>> 32) = bc at hbc ⊢
  generalize (x &&& (0xFFFFFFFF : UInt64)) * (n &&& (0xFFFFFFFF : UInt64)) = bd at hbd ⊢
  have hmid := toNat_mid34 ad bc bd
  generalize (bd >>> 32) + (bc &&& (0xFFFFFFFF : UInt64)) + (ad &&& (0xFFFFFFFF : UInt64)) = mid34
    at hmid ⊢
  -- the schoolbook identity on the halves of `x` and `n`
  have hhigh := @Limbs.mul_div_sq_eq (2 ^ 32) (x.toNat / 2 ^ 32) (x.toNat % 2 ^ 32)
    (n.toNat / 2 ^ 32) (n.toNat % 2 ^ 32) (by norm_num)
  rw [Nat.div_add_mod', Nat.div_add_mod', show (2 : Nat) ^ 32 * 2 ^ 32 = 2 ^ 64 by norm_num,
    ← hac, ← had, ← hbc, ← hbd, ← hmid] at hhigh
  -- the top sum is that high half, so no partial sum of it wraps
  have hres := mul_div_lt x n
  have h1 := toNat_add_of_lt (a := ac) (b := bc >>> 32)
    (by rw [Limbs.toNat_shiftRight_32]; omega)
  have h2 := toNat_add_of_lt (a := ac + bc >>> 32) (b := ad >>> 32)
    (by rw [h1, Limbs.toNat_shiftRight_32, Limbs.toNat_shiftRight_32]; omega)
  rw [toNat_add_of_lt (by rw [h2, h1]; simp only [Limbs.toNat_shiftRight_32]; omega), h2, h1]
  simp only [Limbs.toNat_shiftRight_32]
  omega

/-- The two branches of `MapIntoRange` agree on every input: both are `⌊x * n / 2^64⌋`. -/
theorem mapIntoRangePortable_eq_int128 (x n : UInt64) :
    (mapIntoRangePortable x n).toNat = x.toNat * n.toNat / 2 ^ 64 ∧
      mapIntoRangePortable x n = mapIntoRangeInt128 x n := by
  refine ⟨toNat_mapIntoRangePortable x n, ?_⟩
  apply UInt64.toNat_inj.mp
  rw [toNat_mapIntoRangePortable, toNat_mapIntoRangeInt128]

end Sumcoin.BlockFilter
