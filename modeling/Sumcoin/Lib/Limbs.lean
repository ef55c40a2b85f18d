import Mathlib

/-!
# Little-endian vectors of 32-bit limbs

A fixed-width unsigned integer stored as `n` words of 32 bits, least significant
word first.  This module gives that layout its mathematical reading: the value of
the limbs, the bits of that value, and the effect of OR-ing a word into one limb.
Shifts and OR updates are stated bit by bit, since that is how word-wise shifts are
argued: a bit of the result names exactly one limb and one bit position inside it.
Carry loops are stated by value: `vvalue_set_carry` says one pass of such a loop loses
nothing, and the counted-loop rules at the end carry that equation through the loop.
-/

namespace Limbs

/-- The value of a limb list, least significant limb first. -/
def value : List UInt32 → Nat
  | [] => 0
  | w :: ws => w.toNat + 2 ^ 32 * value ws

@[simp] theorem value_nil : value [] = 0 := rfl

@[simp] theorem value_cons (w : UInt32) (ws : List UInt32) :
    value (w :: ws) = w.toNat + 2 ^ 32 * value ws := rfl

/-- The value of `n` limbs fits in `32 * n` bits. -/
theorem value_lt (ws : List UInt32) : value ws < 2 ^ (32 * ws.length) := by
  induction ws with
  | nil => simp
  | cons w ws ih =>
    have hw : w.toNat < 2 ^ 32 := w.toNat_lt
    have hpow : 2 ^ (32 * (ws.length + 1)) = 2 ^ 32 * 2 ^ (32 * ws.length) := by
      rw [← Nat.pow_add]; congr 1; ring
    rw [value_cons, List.length_cons, hpow]
    calc w.toNat + 2 ^ 32 * value ws
        < 2 ^ 32 + 2 ^ 32 * value ws := by omega
      _ = 2 ^ 32 * (value ws + 1) := by ring
      _ ≤ 2 ^ 32 * 2 ^ (32 * ws.length) := Nat.mul_le_mul_left _ ih

theorem value_append (xs ys : List UInt32) :
    value (xs ++ ys) = value xs + 2 ^ (32 * xs.length) * value ys := by
  induction xs with
  | nil => simp
  | cons x xs ih =>
    simp only [List.cons_append, value_cons, ih, List.length_cons]
    rw [show 32 * (xs.length + 1) = 32 + 32 * xs.length by ring, Nat.pow_add]
    ring

/-- The limbs below position `i` and limb `i` itself. -/
theorem value_take_succ (ws : List UInt32) {i : Nat} (hi : i < ws.length) :
    value (ws.take (i + 1)) = value (ws.take i) + 2 ^ (32 * i) * ws[i].toNat := by
  rw [List.take_add_one, List.getElem?_eq_getElem hi, Option.toList_some, value_append,
    List.length_take, Nat.min_eq_left (Nat.le_of_lt hi)]
  simp

/-- Overwriting limb `i` trades its old weighted value for the new one. -/
theorem value_set (ws : List UInt32) {i : Nat} (hi : i < ws.length) (w : UInt32) :
    value (ws.set i w) + 2 ^ (32 * i) * ws[i].toNat = value ws + 2 ^ (32 * i) * w.toNat := by
  induction ws generalizing i with
  | nil => simp at hi
  | cons x xs ih =>
    cases i with
    | zero => simp; ring
    | succ i =>
      have hi' : i < xs.length := by simpa using hi
      have h := ih hi'
      have hpow : 2 ^ (32 * (i + 1)) = 2 ^ 32 * 2 ^ (32 * i) := by
        rw [← Nat.pow_add]; congr 1; ring
      simp only [List.set_cons_succ, value_cons, List.getElem_cons_succ, hpow]
      calc x.toNat + 2 ^ 32 * value (xs.set i w) + 2 ^ 32 * 2 ^ (32 * i) * xs[i].toNat
          = x.toNat + 2 ^ 32 * (value (xs.set i w) + 2 ^ (32 * i) * xs[i].toNat) := by ring
        _ = x.toNat + 2 ^ 32 * (value xs + 2 ^ (32 * i) * w.toNat) := by rw [h]
        _ = x.toNat + 2 ^ 32 * value xs + 2 ^ 32 * 2 ^ (32 * i) * w.toNat := by ring

/-- Complementing every limb complements the value: the two add up to all ones. -/
theorem value_map_not (ws : List UInt32) :
    value (ws.map (~~~ ·)) + value ws + 1 = 2 ^ (32 * ws.length) := by
  induction ws with
  | nil => simp
  | cons w ws ih =>
    have hw : (~~~w).toNat + w.toNat + 1 = 2 ^ 32 := by
      have := w.toNat_lt
      rw [UInt32.toNat_not]
      simp only [UInt32.size] at this ⊢
      omega
    have hpow : 2 ^ (32 * (ws.length + 1)) = 2 ^ 32 * 2 ^ (32 * ws.length) := by
      rw [← Nat.pow_add]; congr 1; ring
    rw [List.map_cons, value_cons, value_cons, List.length_cons, hpow, ← ih]
    calc (~~~w).toNat + 2 ^ 32 * value (ws.map (~~~ ·)) + (w.toNat + 2 ^ 32 * value ws) + 1
        = ((~~~w).toNat + w.toNat + 1) + 2 ^ 32 * (value (ws.map (~~~ ·)) + value ws) := by ring
      _ = 2 ^ 32 * (value (ws.map (~~~ ·)) + value ws + 1) := by rw [hw]; ring

/-- Bit `j` of the value is bit `j % 32` of limb `j / 32`, and there are no
bits above the top limb. -/
theorem testBit_value (ws : List UInt32) (j : Nat) :
    (value ws).testBit j =
      (decide (j < 32 * ws.length) && (ws.getD (j / 32) 0).toNat.testBit (j % 32)) := by
  induction ws generalizing j with
  | nil => simp
  | cons w ws ih =>
    rw [value_cons, Nat.add_comm, Nat.testBit_two_pow_mul_add _ w.toNat_lt]
    by_cases hj : j < 32
    · have hdiv : j / 32 = 0 := Nat.div_eq_of_lt hj
      have hmod : j % 32 = j := Nat.mod_eq_of_lt hj
      have hlen : j < 32 * (ws.length + 1) := by omega
      simp [hj, hdiv, hmod, hlen]
    · obtain ⟨i, rfl⟩ : ∃ i, j = i + 32 := ⟨j - 32, by omega⟩
      have hdiv : (i + 32) / 32 = i / 32 + 1 := Nat.add_div_right i (by decide)
      have hlen : (i + 32 < 32 * (ws.length + 1)) ↔ i < 32 * ws.length := by omega
      simp only [hj, if_false, Nat.add_sub_cancel, ih, List.length_cons, hdiv,
        Nat.add_mod_right, List.getD_cons_succ, hlen]

/-- A bit at or above position 32 of a limb is clear. -/
theorem testBit_toNat_of_le (w : UInt32) {b : Nat} (hb : 32 ≤ b) : w.toNat.testBit b = false :=
  Nat.testBit_lt_two_pow (lt_of_lt_of_le w.toNat_lt (Nat.pow_le_pow_right (by decide) hb))

/-! ## Bits of single words -/

/-- A left shift of a word by `sh < 32` moves bit `b - sh` to `b` and drops what
passes bit 31. -/
theorem testBit_shiftLeft (x : UInt32) {sh : Nat} (h : sh < 32) (b : Nat) :
    (x <<< sh.toUInt32).toNat.testBit b =
      (decide (b < 32) && decide (sh ≤ b) && x.toNat.testBit (b - sh)) := by
  have hs : sh.toUInt32.toNat % 32 = sh := by simp; omega
  rw [UInt32.toNat_shiftLeft, hs, Nat.testBit_mod_two_pow, Nat.testBit_shiftLeft]
  simp only [ge_iff_le, Bool.and_assoc]

/-- A right shift of a word by `sh < 32` reads bit `sh + b` into bit `b`. -/
theorem testBit_shiftRight (x : UInt32) {sh : Nat} (h : sh < 32) (b : Nat) :
    (x >>> sh.toUInt32).toNat.testBit b = x.toNat.testBit (sh + b) := by
  have hs : sh.toUInt32.toNat % 32 = sh := by simp; omega
  rw [UInt32.toNat_shiftRight, hs, Nat.testBit_shiftRight]

/-- The word `1U << k` for `k < 32` is `2 ^ k`. -/
theorem toNat_one_shiftLeft {k : Nat} (h : k < 32) :
    ((1 : UInt32) <<< k.toUInt32).toNat = 2 ^ k := by
  have hs : k.toUInt32.toNat % 32 = k := by simp; omega
  rw [UInt32.toNat_shiftLeft, hs, UInt32.toNat_one, Nat.one_shiftLeft]
  exact Nat.mod_eq_of_lt (Nat.pow_lt_pow_right (by decide) h)

/-- The source's bit test `x & (1U << k)` is nonzero exactly when bit `k` is set. -/
theorem and_one_shiftLeft_ne_zero (x : UInt32) {k : Nat} (h : k < 32) :
    (x &&& ((1 : UInt32) <<< k.toUInt32) ≠ 0) ↔ x.toNat.testBit k = true := by
  rw [ne_eq, ← UInt32.toNat_inj, UInt32.toNat_and, toNat_one_shiftLeft h, UInt32.toNat_zero]
  constructor
  · intro hne
    obtain ⟨i, hi⟩ := Nat.exists_testBit_of_ne_zero hne
    rw [Nat.testBit_and, Nat.testBit_two_pow] at hi
    simp only [Bool.and_eq_true, decide_eq_true_eq] at hi
    exact hi.2 ▸ hi.1
  · intro ht hz
    have := congrArg (fun y => y.testBit k) hz
    simp [Nat.testBit_and, ht] at this

/-- Narrowing a 64-bit word keeps its value modulo `2 ^ 32`, as `UInt32.ofNat` does. -/
theorem toUInt32_eq_ofNat (w : UInt64) : w.toUInt32 = UInt32.ofNat w.toNat := by
  apply UInt32.toNat_inj.mp
  simp

/-- A 64-bit left shift by `s < 64` whose result fits in 32 bits narrows to the product. -/
theorem toUInt32_shiftLeft (w : UInt64) {s : Nat} (hs : s < 64) (h : w.toNat * 2 ^ s < 2 ^ 32) :
    (w <<< s.toUInt64).toUInt32 = UInt32.ofNat (w.toNat * 2 ^ s) := by
  have hsh : s.toUInt64.toNat % 64 = s := by simp; omega
  rw [toUInt32_eq_ofNat, UInt64.toNat_shiftLeft, hsh, Nat.shiftLeft_eq,
    Nat.mod_eq_of_lt (by omega)]

/-- The low word of a 64-bit accumulator, `n & 0xffffffff`, is its value modulo `2 ^ 32`. -/
theorem toUInt32_and_mask (n : UInt64) :
    (n &&& 0xffffffff).toUInt32 = UInt32.ofNat n.toNat := by
  apply UInt32.toNat_inj.mp
  have hmask : (0xffffffff : UInt64).toNat = 2 ^ 32 - 1 := rfl
  have hN : (UInt32.ofNat n.toNat).toNat = n.toNat % 2 ^ 32 := UInt32.toNat_ofNat
  rw [UInt64.toNat_toUInt32, UInt64.toNat_and, hmask, hN, Nat.and_two_pow_sub_one_eq_mod,
    Nat.mod_mod]

/-- The carry out of a 64-bit accumulator, `n >> 32`. -/
theorem toNat_shiftRight_32 (n : UInt64) : (n >>> 32).toNat = n.toNat / 2 ^ 32 := by
  simp [UInt64.toNat_shiftRight, Nat.shiftRight_eq_div_pow]

/-- The low half of a 64-bit word, `n & 0xFFFFFFFF`, kept in 64 bits. -/
theorem toNat_and_mask (n : UInt64) : (n &&& 0xFFFFFFFF).toNat = n.toNat % 2 ^ 32 := by
  rw [UInt64.toNat_and]
  exact Nat.and_two_pow_sub_one_eq_mod n.toNat 32

/-- The high half of a product of two-limb numbers, as the schoolbook method assembles it
from the four limb products: the high product, the cross products' high halves, and the
carry out of the middle column. -/
theorem mul_div_sq_eq {B xh xl nh nl : Nat} (hB : 0 < B) :
    (xh * B + xl) * (nh * B + nl) / (B * B) =
      xh * nh + xh * nl / B + xl * nh / B + (xl * nl / B + xl * nh % B + xh * nl % B) / B := by
  -- one column at a time: first the low limb of the product, then the middle column
  have hlow : (xh * B + xl) * (nh * B + nl) = (xh * nh * B + xh * nl + xl * nh) * B + xl * nl := by
    ring
  have hmid : xh * nh * B + xh * nl + xl * nh + xl * nl / B =
      (xh * nh + xh * nl / B + xl * nh / B) * B + (xl * nl / B + xl * nh % B + xh * nl % B) := by
    have had := Nat.div_add_mod (xh * nl) B
    have hbc := Nat.div_add_mod (xl * nh) B
    linarith
  rw [← Nat.div_div_eq_div_mul, hlow, Nat.add_comm _ (xl * nl), Nat.add_mul_div_right _ _ hB,
    Nat.add_comm (xl * nl / B), hmid, Nat.add_comm _ (_ + _ + _), Nat.add_mul_div_right _ _ hB]
  ring

/-- The bit length of a number is one more than its highest set bit. -/
theorem size_eq_of_testBit {x t : Nat} (ht : x.testBit t = true)
    (habove : ∀ i, t < i → x.testBit i = false) : x.size = t + 1 := by
  apply le_antisymm
  · rw [Nat.size_le]
    exact Nat.lt_pow_two_of_testBit x (fun i hi => habove i (by omega))
  · exact Nat.lt_size.mpr (Nat.ge_two_pow_of_testBit ht)

/-- Placing a nonzero number above `k` low bits adds `k` to its bit length. -/
theorem size_add_two_pow_mul {a w k : Nat} (ha : a < 2 ^ k) (hw : w ≠ 0) :
    (a + 2 ^ k * w).size = k + w.size := by
  have hpos : 0 < w.size := Nat.size_pos.mpr (Nat.pos_of_ne_zero hw)
  apply le_antisymm
  · rw [Nat.size_le]
    have hw' : w + 1 ≤ 2 ^ w.size := Nat.lt_size_self w
    calc a + 2 ^ k * w < 2 ^ k * (w + 1) := by rw [Nat.mul_add]; omega
      _ ≤ 2 ^ k * 2 ^ w.size := Nat.mul_le_mul_left _ hw'
      _ = 2 ^ (k + w.size) := (Nat.pow_add _ _ _).symm
  · have hlow : 2 ^ (w.size - 1) ≤ w := Nat.lt_size.mp (by omega)
    have : 2 ^ (k + w.size - 1) ≤ a + 2 ^ k * w := by
      calc 2 ^ (k + w.size - 1) = 2 ^ k * 2 ^ (w.size - 1) := by
            rw [← Nat.pow_add]; congr 1; omega
        _ ≤ 2 ^ k * w := Nat.mul_le_mul_left _ hlow
        _ ≤ a + 2 ^ k * w := Nat.le_add_left _ _
    have := Nat.lt_size.mpr this
    omega

/-! ## Folds of OR updates -/

/-- A loop whose every step only ORs bits into limbs: bit `b` of limb `m` at the
end is set when it was set at the start or some step contributed it. -/
theorem testBit_foldl {n : Nat} {ι : Type} (step : Vector UInt32 n → ι → Vector UInt32 n)
    (c : ι → Nat → Nat → Bool)
    (hstep : ∀ v i m (hm : m < n) b, (step v i)[m].toNat.testBit b = (v[m].toNat.testBit b || c i m b))
    (l : List ι) (init : Vector UInt32 n) (m : Nat) (hm : m < n) (b : Nat) :
    (l.foldl step init)[m].toNat.testBit b = (init[m].toNat.testBit b || l.any (fun i => c i m b)) := by
  induction l generalizing init with
  | nil => simp
  | cons i l ih =>
    rw [List.foldl_cons, ih, hstep, List.any_cons, Bool.or_assoc]

/-! ## Vectors of limbs -/

/-- The value of a fixed-width limb vector. -/
def vvalue {n : Nat} (v : Vector UInt32 n) : Nat := value v.toList

theorem vvalue_lt {n : Nat} (v : Vector UInt32 n) : vvalue v < 2 ^ (32 * n) := by
  simpa [vvalue] using value_lt v.toList

/-- Bit `j` of a limb vector's value, read from the limb that holds it. -/
theorem testBit_vvalue {n : Nat} (v : Vector UInt32 n) (j : Nat) :
    (vvalue v).testBit j =
      if h : j < 32 * n then v[j / 32].toNat.testBit (j % 32) else false := by
  rw [vvalue, testBit_value]
  split
  · rename_i h
    have hlt : j / 32 < n := by omega
    simp [h, List.getD_eq_getElem?_getD, hlt]
  · rename_i h
    simp [h]

/-- Two limb vectors with the same value are equal. -/
theorem eq_of_vvalue_eq {n : Nat} {v w : Vector UInt32 n} (h : vvalue v = vvalue w) : v = w := by
  ext m hm
  apply Nat.eq_of_testBit_eq
  intro b
  by_cases hb : b < 32
  · have key := congrArg (fun x => x.testBit (32 * m + b)) h
    have hj : 32 * m + b < 32 * n := by omega
    have hdiv : (32 * m + b) / 32 = m := by omega
    have hmod : (32 * m + b) % 32 = b := by omega
    simpa [testBit_vvalue, hj, hdiv, hmod] using key
  · rw [testBit_toNat_of_le _ (by omega), testBit_toNat_of_le _ (by omega)]

/-- `vvalue` form of `value_set`. -/
theorem vvalue_set {n : Nat} (v : Vector UInt32 n) {i : Nat} (hi : i < n) (w : UInt32) :
    vvalue (v.set i w hi) + 2 ^ (32 * i) * v[i].toNat = vvalue v + 2 ^ (32 * i) * w.toNat := by
  have hi' : i < v.toList.length := by simpa using hi
  have h := value_set v.toList hi' w
  simpa [vvalue, Vector.toList_set] using h

/-- One pass of a carry loop: limb `i` takes the low word of the accumulator `N` and the
carry `N / 2 ^ 32` moves to the weight of limb `i + 1`; nothing of `N` is lost. -/
theorem vvalue_set_carry {n : Nat} (v : Vector UInt32 n) {i : Nat} (hi : i < n) (N : Nat) :
    vvalue (v.set i (UInt32.ofNat N) hi) + 2 ^ (32 * (i + 1)) * (N / 2 ^ 32) +
        2 ^ (32 * i) * v[i].toNat = vvalue v + 2 ^ (32 * i) * N := by
  have h := vvalue_set v hi (UInt32.ofNat N)
  have hN : (UInt32.ofNat N).toNat = N % 2 ^ 32 := UInt32.toNat_ofNat
  have hpow : 2 ^ (32 * (i + 1)) = 2 ^ (32 * i) * 2 ^ 32 := by
    rw [← Nat.pow_add]; congr 1
  rw [hN] at h
  calc vvalue (v.set i (UInt32.ofNat N) hi) + 2 ^ (32 * (i + 1)) * (N / 2 ^ 32) +
        2 ^ (32 * i) * v[i].toNat
      = vvalue (v.set i (UInt32.ofNat N) hi) + 2 ^ (32 * i) * v[i].toNat +
          2 ^ (32 * i) * (2 ^ 32 * (N / 2 ^ 32)) := by rw [hpow]; ring
    _ = vvalue v + 2 ^ (32 * i) * (N % 2 ^ 32 + 2 ^ 32 * (N / 2 ^ 32)) := by rw [h]; ring
    _ = vvalue v + 2 ^ (32 * i) * N := by rw [Nat.mod_add_div]

/-- OR a word into limb `j` when `j` is in range; the source's guarded `pn[j] |= x`. -/
def orAt {n : Nat} (v : Vector UInt32 n) (j : Nat) (x : UInt32) : Vector UInt32 n :=
  if h : j < n then v.set j (v[j] ||| x) h else v

theorem getElem_orAt {n : Nat} (v : Vector UInt32 n) (j : Nat) (x : UInt32) (m : Nat)
    (hm : m < n) : (orAt v j x)[m] = if j = m then v[m] ||| x else v[m] := by
  unfold orAt
  split
  · rename_i hj
    rw [Vector.getElem_set]
    split
    · rename_i hjm; subst hjm; rfl
    · rfl
  · rename_i hj
    have : j ≠ m := by omega
    simp [this]

/-- The bits of a limb after OR-ing a word into position `j`. -/
theorem testBit_getElem_orAt {n : Nat} (v : Vector UInt32 n) (j : Nat) (x : UInt32) (m : Nat)
    (hm : m < n) (b : Nat) :
    (orAt v j x)[m].toNat.testBit b = (v[m].toNat.testBit b || (j = m && x.toNat.testBit b)) := by
  rw [getElem_orAt]
  by_cases hjm : j = m <;> simp [hjm]

/-- Setting bit `s` of the value: the source's `pn[s / 32] |= 1 << (s % 32)`. -/
theorem vvalue_orAt_two_pow {n : Nat} (v : Vector UInt32 n) {s : Nat} (hs : s < 32 * n) :
    vvalue (orAt v (s / 32) ((1 : UInt32) <<< (s % 32).toUInt32)) = vvalue v ||| 2 ^ s := by
  apply Nat.eq_of_testBit_eq
  intro j
  rw [Nat.testBit_or, Nat.testBit_two_pow, testBit_vvalue, testBit_vvalue]
  by_cases hj : j < 32 * n
  · -- bit `j` lies in limb `j / 32`, and it is bit `s` exactly when both coordinates agree
    have hjs : (s / 32 = j / 32 ∧ s % 32 = j % 32) ↔ s = j := by omega
    simp only [hj, dif_pos, testBit_getElem_orAt, toNat_one_shiftLeft (Nat.mod_lt s (by decide)),
      Nat.testBit_two_pow, ← hjs, Bool.decide_and]
  · have hsj : s ≠ j := by omega
    simp [hj, hsj]

/-! ## Counted loops

The limb loops `for (int i = 0; i < WIDTH; i++)` are folds over `List.range` or
`List.finRange`; these are their invariant rules, indexed by the number of passes. -/

/-- Invariant rule for a fold over `List.range n`. -/
theorem foldl_range_induction {β : Type} (n : Nat) (motive : Nat → β → Prop) (init : β)
    (f : β → Nat → β) (h0 : motive 0 init)
    (hf : ∀ i b, i < n → motive i b → motive (i + 1) (f b i)) :
    motive n ((List.range n).foldl f init) := by
  induction n with
  | zero => simpa using h0
  | succ n ih =>
    rw [List.range_succ, List.foldl_append, List.foldl_cons, List.foldl_nil]
    exact hf n _ (Nat.lt_succ_self n) (ih fun i b hi => hf i b (by omega))

/-- Invariant rule for a fold over `List.finRange n`. -/
theorem foldl_finRange_induction {β : Type} (n : Nat) (motive : Nat → β → Prop) (init : β)
    (f : β → Fin n → β) (h0 : motive 0 init)
    (hf : ∀ (i : Fin n) b, motive i b → motive (i + 1) (f b i)) :
    motive n ((List.finRange n).foldl f init) := by
  -- the loop after its first `k` passes is the fold over the first `k` indices
  have hk : ∀ k, k ≤ n → motive k (((List.finRange n).take k).foldl f init) := by
    intro k
    induction k with
    | zero => intro _; simpa using h0
    | succ k ih =>
      intro hk
      have hlt : k < (List.finRange n).length := by rw [List.length_finRange]; omega
      rw [List.take_add_one, List.getElem?_eq_getElem hlt, Option.toList_some,
        List.foldl_append, List.foldl_cons, List.foldl_nil, List.getElem_finRange]
      exact hf ⟨k, by omega⟩ _ (ih (by omega))
  have hall := hk n le_rfl
  rwa [List.take_of_length_le (by rw [List.length_finRange])] at hall

end Limbs
