import Sumcoin.Arith.BaseUint

/-!
# `base_uint` arithmetic read back on values

Every operation of `Arith/BaseUint.lean` is exact modulo `2 ^ (32 * WIDTH)`.  The carry
loops of `operator+=` and of both `operator*=` are proved by one conservation equation,
kept by each pass through `carry_pass`: what the limbs hold, plus the carry at the weight
of the next limb, is what has been added so far.  The increment and decrement loops stop
at the first limb that does not wrap, and the division keeps the long-division invariant
`num + quot * b = a` while it realigns the divisor one bit at a time.

## Main statements

* `BaseUint.toNat_add`, `toNat_mul32`, `toNat_mul`, `toNat_bnot`, `toNat_inc` — values
  modulo `2 ^ (32 * WIDTH)`.
* `BaseUint.toNat_neg`, `toNat_sub`, `toNat_dec` — the same, read as integers.
* `BaseUint.div_map_toNat` — `operator/=` is floor division, and throws on a zero divisor.
* `BaseUint.baseUint_exact` — all of them, with the shifts, `CompareTo` and `bits`.
-/

namespace Sumcoin

namespace BaseUint

variable {WIDTH : Nat}

/-! ## The 64-bit accumulator -/

/-- One pass of a carry loop writes `n & 0xffffffff` to limb `i` and carries `n >> 32`;
nothing of `n` is lost, and the carry out fits in a word. -/
theorem carry_pass (v : Vector UInt32 WIDTH) {i : Nat} (hi : i < WIDTH) (n : UInt64) :
    Limbs.vvalue (v.set i (n &&& 0xffffffff).toUInt32 hi) +
        2 ^ (32 * (i + 1)) * (n >>> 32).toNat + 2 ^ (32 * i) * v[i].toNat =
      Limbs.vvalue v + 2 ^ (32 * i) * n.toNat ∧ (n >>> 32).toNat < 2 ^ 32 := by
  rw [Limbs.toUInt32_and_mask, Limbs.toNat_shiftRight_32]
  refine ⟨Limbs.vvalue_set_carry v hi n.toNat, ?_⟩
  have hn : n.toNat < 2 ^ 32 * 2 ^ 32 := n.toNat_lt
  exact Nat.div_lt_of_lt_mul hn

/-- The accumulator of `operator+=`: a carry below `2 ^ 32` and two words. -/
theorem toNat_carry_add (c : UInt64) (x y : UInt32) (hc : c.toNat < 2 ^ 32) :
    (c + x.toUInt64 + y.toUInt64).toNat = c.toNat + x.toNat + y.toNat := by
  have hx := x.toNat_lt
  have hy := y.toNat_lt
  rw [UInt64.toNat_add, UInt64.toNat_add, UInt32.toNat_toUInt64, UInt32.toNat_toUInt64,
    Nat.mod_eq_of_lt (by omega), Nat.mod_eq_of_lt (by omega)]

/-- The product of two words fits in 64 bits. -/
theorem toNat_word_mul (y z : UInt32) :
    (y.toUInt64 * z.toUInt64).toNat = y.toNat * z.toNat ∧
      y.toNat * z.toNat ≤ (2 ^ 32 - 1) * (2 ^ 32 - 1) := by
  have hle : y.toNat * z.toNat ≤ (2 ^ 32 - 1) * (2 ^ 32 - 1) :=
    Nat.mul_le_mul (by have := y.toNat_lt; omega) (by have := z.toNat_lt; omega)
  refine ⟨?_, hle⟩
  rw [UInt64.toNat_mul, UInt32.toNat_toUInt64, UInt32.toNat_toUInt64,
    Nat.mod_eq_of_lt (by norm_num at hle ⊢; omega)]

/-- The accumulator of `operator*=(uint32_t)`: a carry below `2 ^ 32` and a product. -/
theorem toNat_carry_mul (c : UInt64) (y z : UInt32) (hc : c.toNat < 2 ^ 32) :
    (c + y.toUInt64 * z.toUInt64).toNat = c.toNat + y.toNat * z.toNat := by
  obtain ⟨hmul, hle⟩ := toNat_word_mul y z
  rw [UInt64.toNat_add, hmul, Nat.mod_eq_of_lt (by norm_num at hle ⊢; omega)]

/-- The accumulator of `operator*=(const base_uint&)`: a carry, a word and a product,
at most `2 ^ 64 - 1`. -/
theorem toNat_carry_add_mul (c : UInt64) (x y z : UInt32) (hc : c.toNat < 2 ^ 32) :
    (c + x.toUInt64 + y.toUInt64 * z.toUInt64).toNat = c.toNat + x.toNat + y.toNat * z.toNat := by
  obtain ⟨hmul, hle⟩ := toNat_word_mul y z
  have hx := x.toNat_lt
  rw [UInt64.toNat_add, UInt64.toNat_add, UInt32.toNat_toUInt64, hmul,
    Nat.mod_eq_of_lt (by omega), Nat.mod_eq_of_lt (by norm_num at hle ⊢; omega)]

/-- A value below the modulus is its own residue: the last step of every carry loop. -/
theorem eq_mod_of_add_mul {x c y M : Nat} (hx : x < M) (h : x + M * c = y) : x = y % M := by
  rw [← h, Nat.add_mul_mod_self_left, Nat.mod_eq_of_lt hx]

/-! ## Addition and multiplication -/

/-- The `operator+=` loop: after `k` passes the limbs and the carry hold `a` plus the
low `k` limbs of `b`. -/
theorem add_loop (a b : Vector UInt32 WIDTH) :
    Limbs.vvalue ((List.finRange WIDTH).foldl (addStep b) (a, 0)).1 +
        2 ^ (32 * WIDTH) * ((List.finRange WIDTH).foldl (addStep b) (a, 0)).2.toNat =
      Limbs.vvalue a + Limbs.vvalue b := by
  refine (Limbs.foldl_finRange_induction WIDTH
    (fun k st => st.2.toNat < 2 ^ 32 ∧
      Limbs.vvalue st.1 + 2 ^ (32 * k) * st.2.toNat = Limbs.vvalue a + Limbs.value (b.toList.take k))
    (a, 0) (addStep b) ⟨by simp, by simp⟩ ?step).2.trans ?whole
  case step =>
    rintro i ⟨v, c⟩ ⟨hc, hinv⟩
    obtain ⟨hpass, hc'⟩ := carry_pass v i.isLt (c + v[i].toUInt64 + b[i].toUInt64)
    have hb := @Limbs.value_take_succ b.toList i (by simp)
    rw [toNat_carry_add c _ _ hc] at hpass
    simp only [Vector.getElem_toList] at hb
    refine ⟨hc', ?_⟩
    simp only [addStep, Fin.getElem_fin] at hpass ⊢
    rw [hb]
    linarith
  case whole => rw [List.take_of_length_le (by simp)]; rfl

/-- **`operator+=` adds modulo `2 ^ (32 * WIDTH)`.** -/
theorem toNat_add (a b : BaseUint WIDTH) :
    (a.add b).toNat = (a.toNat + b.toNat) % 2 ^ (32 * WIDTH) :=
  eq_mod_of_add_mul (Limbs.vvalue_lt _) (add_loop a.pn b.pn)

/-- The `operator*=(uint32_t)` loop: after `k` passes the limbs above `k` are still
`a`'s, and the limbs below with the carry hold `b32` times the low `k` limbs of `a`. -/
theorem mul32_loop (a : Vector UInt32 WIDTH) (b32 : UInt32) :
    Limbs.vvalue ((List.finRange WIDTH).foldl (mul32Step b32) (a, 0)).1 +
        2 ^ (32 * WIDTH) * ((List.finRange WIDTH).foldl (mul32Step b32) (a, 0)).2.toNat =
      Limbs.vvalue a * b32.toNat := by
  have key := Limbs.foldl_finRange_induction WIDTH
    (fun k st => st.2.toNat < 2 ^ 32 ∧ (∀ m (hm : m < WIDTH), k ≤ m → st.1[m] = a[m]) ∧
      Limbs.vvalue st.1 + 2 ^ (32 * k) * st.2.toNat + Limbs.value (a.toList.take k) =
        Limbs.vvalue a + b32.toNat * Limbs.value (a.toList.take k))
    (a, 0) (mul32Step b32) ⟨by simp, fun _ _ _ => rfl, by simp⟩ ?step
  · obtain ⟨_, _, hinv⟩ := key
    rw [List.take_of_length_le (by simp)] at hinv
    have : Limbs.value a.toList = Limbs.vvalue a := rfl
    rw [this] at hinv
    linarith
  case step =>
    rintro i ⟨v, c⟩ ⟨hc, hframe, hinv⟩
    have hvi : v[(i : Nat)] = a[(i : Nat)] := hframe i i.isLt le_rfl
    obtain ⟨hpass, hc'⟩ := carry_pass v i.isLt (c + b32.toUInt64 * v[i].toUInt64)
    have ha := @Limbs.value_take_succ a.toList i (by simp)
    rw [toNat_carry_mul c _ _ hc] at hpass
    simp only [Vector.getElem_toList] at ha
    simp only [mul32Step, Fin.getElem_fin] at hpass ⊢
    refine ⟨hc', ?_, ?_⟩
    · intro m hm him
      rw [Vector.getElem_set_ne _ _ (by omega)]
      exact hframe m hm (by omega)
    · rw [ha, ← hvi]
      linarith

/-- **`operator*=(uint32_t)` multiplies modulo `2 ^ (32 * WIDTH)`.** -/
theorem toNat_mul32 (a : BaseUint WIDTH) (b32 : UInt32) :
    (a.mul32 b32).toNat = a.toNat * b32.toNat % 2 ^ (32 * WIDTH) :=
  eq_mod_of_add_mul (Limbs.vvalue_lt _) (mul32_loop a.pn b32)

/-- Row `j` of `operator*=(const base_uint&)`: the product so far gains `pn[j]` times
the low `WIDTH - j` limbs of `b`, shifted by `j` limbs; the carry out of the top is
what the source drops. -/
theorem mul_row (pn b acc : Vector UInt32 WIDTH) {j : Nat} (hj : j < WIDTH) :
    Limbs.vvalue ((List.range (WIDTH - j)).foldl (mulStep pn b j) (acc, 0)).1 +
        2 ^ (32 * WIDTH) * ((List.range (WIDTH - j)).foldl (mulStep pn b j) (acc, 0)).2.toNat =
      Limbs.vvalue acc + 2 ^ (32 * j) * pn[j].toNat * Limbs.value (b.toList.take (WIDTH - j)) := by
  have key := Limbs.foldl_range_induction (WIDTH - j)
    (fun k st => st.2.toNat < 2 ^ 32 ∧
      Limbs.vvalue st.1 + 2 ^ (32 * (k + j)) * st.2.toNat =
        Limbs.vvalue acc + 2 ^ (32 * j) * pn[j].toNat * Limbs.value (b.toList.take k))
    (acc, 0) (mulStep pn b j) ⟨by simp, by simp⟩ ?step
  · rw [Nat.sub_add_cancel hj.le] at key
    exact key.2
  case step =>
    rintro i ⟨v, c⟩ hi ⟨hc, hinv⟩
    have hij : i + j < WIDTH := by omega
    obtain ⟨hpass, hc'⟩ :=
      carry_pass v hij (c + v[i + j].toUInt64 + pn[j].toUInt64 * b[i].toUInt64)
    have hb := @Limbs.value_take_succ b.toList i (by simp; omega)
    have hpow : 2 ^ (32 * (i + j)) = 2 ^ (32 * j) * 2 ^ (32 * i) := by
      rw [← Nat.pow_add]; congr 1; ring
    rw [toNat_carry_add_mul c _ _ _ hc] at hpass
    simp only [Vector.getElem_toList] at hb
    simp only [mulStep, dif_pos hij]
    refine ⟨hc', ?_⟩
    rw [show 32 * (i + 1 + j) = 32 * (i + j + 1) by ring, hb]
    rw [hpow] at hpass hinv
    linarith

/-- **`operator*=(const base_uint&)` multiplies modulo `2 ^ (32 * WIDTH)`.** -/
theorem toNat_mul (a b : BaseUint WIDTH) :
    (a.mul b).toNat = a.toNat * b.toNat % 2 ^ (32 * WIDTH) := by
  -- the rows so far agree with the low `j` limbs of `a` times `b`, modulo the width
  have key := Limbs.foldl_range_induction WIDTH
    (fun j acc => Limbs.vvalue acc ≡ Limbs.value (a.pn.toList.take j) * b.toNat
      [MOD 2 ^ (32 * WIDTH)])
    zero.pn
    (fun acc j => ((List.range (WIDTH - j)).foldl (mulStep a.pn b.pn j) (acc, 0)).1)
    (by rw [show Limbs.vvalue (zero : BaseUint WIDTH).pn = 0 from toNat_zero, List.take_zero,
      Limbs.value_nil, Nat.zero_mul]) ?step
  · rw [List.take_of_length_le (by simp)] at key
    exact (Nat.mod_eq_of_lt (Limbs.vvalue_lt _)).symm.trans key
  case step =>
    intro j acc hj ih
    have hrow := mul_row a.pn b.pn acc hj
    have ha := @Limbs.value_take_succ a.pn.toList j (by simp; omega)
    simp only [Vector.getElem_toList] at ha
    -- `b` splits at the limb where row `j` stops; the high part lands above the width
    have hlen : (b.pn.toList.take (WIDTH - j)).length = WIDTH - j := by simp
    have hb : b.toNat = Limbs.value (b.pn.toList.take (WIDTH - j)) +
        2 ^ (32 * (WIDTH - j)) * Limbs.value (b.pn.toList.drop (WIDTH - j)) := by
      calc b.toNat = Limbs.value (b.pn.toList.take (WIDTH - j) ++ b.pn.toList.drop (WIDTH - j)) := by
            rw [List.take_append_drop]; rfl
        _ = _ := by rw [Limbs.value_append, hlen]
    have hM : 2 ^ (32 * WIDTH) = 2 ^ (32 * j) * 2 ^ (32 * (WIDTH - j)) := by
      rw [← Nat.pow_add]; congr 1; omega
    calc Limbs.vvalue ((List.range (WIDTH - j)).foldl (mulStep a.pn b.pn j) (acc, 0)).1
        ≡ Limbs.vvalue ((List.range (WIDTH - j)).foldl (mulStep a.pn b.pn j) (acc, 0)).1 +
            2 ^ (32 * WIDTH) *
              ((List.range (WIDTH - j)).foldl (mulStep a.pn b.pn j) (acc, 0)).2.toNat
            [MOD 2 ^ (32 * WIDTH)] := (Nat.add_mul_mod_self_left _ _ _).symm
      _ = Limbs.vvalue acc +
            2 ^ (32 * j) * a.pn[j].toNat * Limbs.value (b.pn.toList.take (WIDTH - j)) := hrow
      _ ≡ Limbs.value (a.pn.toList.take j) * b.toNat +
            2 ^ (32 * j) * a.pn[j].toNat * Limbs.value (b.pn.toList.take (WIDTH - j))
            [MOD 2 ^ (32 * WIDTH)] := Nat.ModEq.add_right _ ih
      _ ≡ Limbs.value (a.pn.toList.take j) * b.toNat +
            2 ^ (32 * j) * a.pn[j].toNat * Limbs.value (b.pn.toList.take (WIDTH - j)) +
            2 ^ (32 * WIDTH) * (a.pn[j].toNat * Limbs.value (b.pn.toList.drop (WIDTH - j)))
            [MOD 2 ^ (32 * WIDTH)] := (Nat.add_mul_mod_self_left _ _ _).symm
      _ = Limbs.value (a.pn.toList.take (j + 1)) * b.toNat := by
        rw [ha, hb, hM]; ring

/-! ## Complement, increment and decrement -/

/-- **`operator~` complements within the width.** -/
theorem toNat_bnot (a : BaseUint WIDTH) : a.bnot.toNat = 2 ^ (32 * WIDTH) - 1 - a.toNat := by
  have h := Limbs.value_map_not a.pn.toList
  rw [Vector.length_toList] at h
  have hmap : a.bnot.toNat = Limbs.value (a.pn.toList.map (~~~ ·)) := by
    simp [bnot, toNat, Limbs.vvalue, Vector.toList_map]
  rw [hmap, toNat, Limbs.vvalue]
  omega

/-- `++pn[i] == 0`: the limb was all ones. -/
theorem word_add_one_eq_zero (x : UInt32) : x + 1 = 0 ↔ x.toNat + 1 = 2 ^ 32 := by
  rw [← UInt32.toNat_inj, UInt32.toNat_add, UInt32.toNat_one, UInt32.toNat_zero]
  have := x.toNat_lt
  omega

/-- `--pn[i] == std::numeric_limits<uint32_t>::max()`: the limb was zero. -/
theorem word_sub_one_eq_max (x : UInt32) : x - 1 = 0xffffffff ↔ x.toNat = 0 := by
  rw [← UInt32.toNat_inj, UInt32.toNat_sub, UInt32.toNat_one]
  have := x.toNat_lt
  show _ = 4294967295 ↔ _
  omega

/-- The `operator++` loop from limb `i` adds `2 ^ (32 * i)`, dropping what passes the top. -/
theorem incFrom_spec (fuel : Nat) (pn : Vector UInt32 WIDTH) (i : Nat) (h : i + fuel = WIDTH) :
    Limbs.vvalue (incFrom pn i fuel) = (Limbs.vvalue pn + 2 ^ (32 * i)) % 2 ^ (32 * WIDTH) := by
  induction fuel generalizing pn i with
  | zero =>
    -- past the top limb the loop stops, and `2 ^ (32 * WIDTH)` vanishes modulo the width
    have hi : i = WIDTH := by omega
    rw [incFrom, hi, Nat.add_mod_right, Nat.mod_eq_of_lt (Limbs.vvalue_lt pn)]
  | succ fuel ih =>
    have hi : i < WIDTH := by omega
    have hset := Limbs.vvalue_set pn hi (pn[i] + 1)
    have hlt := pn[i].toNat_lt
    rw [UInt32.toNat_add, UInt32.toNat_one] at hset
    rw [incFrom, dif_pos hi]
    dsimp only
    rw [Vector.getElem_set_self]
    by_cases hwrap : pn[i].toNat + 1 = 2 ^ 32
    · -- the limb wraps to zero and the carry moves on to limb `i + 1`
      have hpow : 2 ^ (32 * (i + 1)) = 2 ^ (32 * i) * 2 ^ 32 := by rw [← Nat.pow_add, Nat.mul_succ]
      rw [if_pos ((word_add_one_eq_zero _).mpr hwrap), ih _ _ (by omega)]
      rw [hwrap, Nat.mod_self] at hset
      have hval : Limbs.vvalue (pn.set i (pn[i] + 1) hi) + 2 ^ (32 * (i + 1)) =
          Limbs.vvalue pn + 2 ^ (32 * i) := by
        rw [hpow, ← hwrap]
        linarith
      rw [hval]
    · rw [if_neg (mt (word_add_one_eq_zero _).mp hwrap)]
      rw [Nat.mod_eq_of_lt (by omega)] at hset
      have hval : Limbs.vvalue (pn.set i (pn[i] + 1) hi) = Limbs.vvalue pn + 2 ^ (32 * i) := by
        linarith
      rw [← hval, Nat.mod_eq_of_lt (Limbs.vvalue_lt _)]

/-- **`operator++` adds one modulo `2 ^ (32 * WIDTH)`.** -/
theorem toNat_inc (a : BaseUint WIDTH) : a.inc.toNat = (a.toNat + 1) % 2 ^ (32 * WIDTH) := by
  have h := incFrom_spec WIDTH a.pn 0 (Nat.zero_add _)
  rwa [Nat.mul_zero, Nat.pow_zero] at h

/-- The `operator--` loop from limb `i` subtracts `2 ^ (32 * i)` modulo the width,
stated without subtraction: adding `2 ^ (32 * i)` back gives the limbs it started from. -/
theorem decFrom_spec (fuel : Nat) (pn : Vector UInt32 WIDTH) (i : Nat) (h : i + fuel = WIDTH) :
    (Limbs.vvalue (decFrom pn i fuel) + 2 ^ (32 * i)) % 2 ^ (32 * WIDTH) = Limbs.vvalue pn := by
  induction fuel generalizing pn i with
  | zero =>
    have hi : i = WIDTH := by omega
    rw [decFrom, hi, Nat.add_mod_right, Nat.mod_eq_of_lt (Limbs.vvalue_lt pn)]
  | succ fuel ih =>
    have hi : i < WIDTH := by omega
    have hset := Limbs.vvalue_set pn hi (pn[i] - 1)
    have hsub : (pn[i] - 1).toNat = (pn[i].toNat + (2 ^ 32 - 1)) % 2 ^ 32 := by
      rw [UInt32.toNat_sub, UInt32.toNat_one]
      omega
    have hlt := pn[i].toNat_lt
    rw [decFrom, dif_pos hi]
    dsimp only
    rw [Vector.getElem_set_self]
    by_cases hzero : pn[i].toNat = 0
    · -- the limb wraps to all ones and the borrow moves on to limb `i + 1`
      rw [if_pos ((word_sub_one_eq_max _).mpr hzero)]
      have hmax : (pn[i] - 1).toNat + 1 = 2 ^ 32 := by rw [hsub, hzero]; rfl
      have hpow : 2 ^ (32 * (i + 1)) = 2 ^ (32 * i) * 2 ^ 32 := by rw [← Nat.pow_add, Nat.mul_succ]
      have hrec := ih (pn.set i (pn[i] - 1) hi) (i + 1) (by omega)
      rw [hzero, Nat.mul_zero, Nat.add_zero] at hset
      -- cancel the borrowed `2 ^ (32 * i) * 0xffffffff` on both sides
      have hcancel : Limbs.vvalue (decFrom (pn.set i (pn[i] - 1) hi) (i + 1) fuel) + 2 ^ (32 * i) +
            2 ^ (32 * i) * (pn[i] - 1).toNat ≡ Limbs.vvalue pn + 2 ^ (32 * i) * (pn[i] - 1).toNat
            [MOD 2 ^ (32 * WIDTH)] := by
        have e : Limbs.vvalue (decFrom (pn.set i (pn[i] - 1) hi) (i + 1) fuel) + 2 ^ (32 * i) +
            2 ^ (32 * i) * (pn[i] - 1).toNat =
            Limbs.vvalue (decFrom (pn.set i (pn[i] - 1) hi) (i + 1) fuel) + 2 ^ (32 * (i + 1)) := by
          rw [hpow, ← hmax]; ring
        unfold Nat.ModEq
        rw [e, hrec, ← hset, Nat.mod_eq_of_lt (Limbs.vvalue_lt _)]
      rw [Nat.ModEq.add_right_cancel' _ hcancel, Nat.mod_eq_of_lt (Limbs.vvalue_lt _)]
    · rw [if_neg (mt (word_sub_one_eq_max _).mp hzero)]
      have hdec : (pn[i] - 1).toNat + 1 = pn[i].toNat := by rw [hsub]; omega
      have hval : Limbs.vvalue (pn.set i (pn[i] - 1) hi) + 2 ^ (32 * i) = Limbs.vvalue pn := by
        rw [← hdec] at hset
        linarith
      rw [hval, Nat.mod_eq_of_lt (Limbs.vvalue_lt _)]

/-- Reading a residue back as an integer: when `x + k ≡ y` and `x` is below the
modulus, `x` is `y - k` reduced. -/
theorem int_emod_of_add {x k y M : Nat} (hx : x < M) (h : (x + k) % M = y % M) :
    (x : Int) = ((y : Int) - k) % M := by
  have hmod : ((x + k : Nat) : Int) ≡ y [ZMOD M] := by
    unfold Int.ModEq
    exact_mod_cast h
  have hsub := hmod.sub_right (k : Int)
  push_cast at hsub
  rw [add_sub_cancel_right] at hsub
  rw [← hsub, Int.emod_eq_of_lt (by omega) (by exact_mod_cast hx)]

/-- **`operator--` subtracts one modulo `2 ^ (32 * WIDTH)`.** -/
theorem toNat_dec (a : BaseUint WIDTH) :
    (a.dec.toNat : Int) = ((a.toNat : Int) - 1) % 2 ^ (32 * WIDTH) := by
  have h := decFrom_spec WIDTH a.pn 0 (Nat.zero_add _)
  rw [Nat.mul_zero, Nat.pow_zero] at h
  have := int_emod_of_add (Limbs.vvalue_lt _) (h.trans (Nat.mod_eq_of_lt (a.toNat_lt)).symm)
  exact_mod_cast this

/-- The two's complement `-a` sums with `a` to zero modulo the width. -/
theorem neg_add_mod (a : BaseUint WIDTH) :
    (a.neg.toNat + a.toNat) % 2 ^ (32 * WIDTH) = 0 := by
  have ha := a.toNat_lt
  rw [neg, toNat_inc, toNat_bnot, Nat.mod_add_mod]
  rw [show 2 ^ (32 * WIDTH) - 1 - a.toNat + 1 + a.toNat = 2 ^ (32 * WIDTH) by omega, Nat.mod_self]

/-- **Unary `operator-` negates modulo `2 ^ (32 * WIDTH)`.** -/
theorem toNat_neg (a : BaseUint WIDTH) :
    (a.neg.toNat : Int) = -(a.toNat : Int) % 2 ^ (32 * WIDTH) := by
  have := @int_emod_of_add a.neg.toNat a.toNat 0 _ a.neg.toNat_lt (by rw [neg_add_mod, Nat.zero_mod])
  simpa using this

/-- **`operator-=` subtracts modulo `2 ^ (32 * WIDTH)`.** -/
theorem toNat_sub (a b : BaseUint WIDTH) :
    ((a.sub b).toNat : Int) = ((a.toNat : Int) - b.toNat) % 2 ^ (32 * WIDTH) := by
  apply int_emod_of_add (a.sub b).toNat_lt
  rw [sub, toNat_add, Nat.mod_add_mod, Nat.add_assoc, Nat.add_mod, neg_add_mod, Nat.add_zero,
    Nat.mod_mod]

/-- Without a borrow, `operator-=` is the difference. -/
theorem toNat_sub_of_le {a b : BaseUint WIDTH} (h : b.toNat ≤ a.toNat) :
    (a.sub b).toNat = a.toNat - b.toNat := by
  have hs := toNat_sub a b
  have ha : (a.toNat : Int) < 2 ^ (32 * WIDTH) := by exact_mod_cast a.toNat_lt
  rw [Int.emod_eq_of_lt (by omega) (by omega)] at hs
  omega

/-! ## Division -/

/-- `pn[shift / 32] |= (1 << (shift & 31))` on a quotient with no bits below
`shift + 1` adds `2 ^ shift`. -/
theorem toNat_setQuotientBit (quot : BaseUint WIDTH) {s : Nat} (hs : s < 32 * WIDTH)
    (hq : 2 ^ (s + 1) ∣ quot.toNat) :
    (⟨Limbs.orAt quot.pn (s / 32) ((1 : UInt32) <<< (s % 32).toUInt32)⟩ : BaseUint WIDTH).toNat =
      quot.toNat + 2 ^ s := by
  obtain ⟨q, hq⟩ := hq
  change Limbs.vvalue _ = _
  rw [Limbs.vvalue_orAt_two_pow _ hs]
  change quot.toNat ||| 2 ^ s = _
  rw [hq, ← Nat.two_pow_add_eq_or_of_lt (Nat.pow_lt_pow_right (by decide) (Nat.lt_succ_self s))]

/-- The `while (shift >= 0)` loop with `n` passes left, so at `shift = n - 1`: the
remainder and the quotient so far account for `A`, the remainder is below `D * 2 ^ n`,
the divisor is aligned at `D * 2 ^ (n - 1)`, and the quotient has no bits below `n`.
The loop then ends with the floor quotient. -/
theorem divLoop_spec {A D : Nat} (n : Nat) (num div quot : BaseUint WIDTH)
    (hn : n ≤ 32 * WIDTH) (hsum : num.toNat + quot.toNat * D = A)
    (hnum : num.toNat < D * 2 ^ n) (hdiv : ∀ m, n = m + 1 → div.toNat = D * 2 ^ m)
    (hquot : 2 ^ n ∣ quot.toNat) :
    (divLoop num div quot n).toNat = A / D := by
  induction n generalizing num div quot with
  | zero =>
    -- the remainder is below `D`, so the quotient is exact
    have hD : 0 < D := by simp at hnum; omega
    rw [divLoop, ← hsum, Nat.add_mul_div_right _ _ hD, Nat.div_eq_of_lt (by simpa using hnum),
      Nat.zero_add]
  | succ m ih =>
    have hd := hdiv m rfl
    have hpow : D * 2 ^ (m + 1) = 2 * (D * 2 ^ m) := by ring
    -- the next divisor is this one shifted back by one bit
    have hdiv' : ∀ k, m = k + 1 → (div.shiftRight 1).toNat = D * 2 ^ k := by
      intro k hk
      rw [toNat_shiftRight, hd, hk, Nat.pow_succ, ← Nat.mul_assoc, Nat.pow_one,
        Nat.mul_div_cancel _ (by decide)]
    rw [divLoop]
    by_cases hge : num.ge div = true
    · -- `num >= div`: subtract and set bit `m` of the quotient
      rw [if_pos hge]
      rw [ge_iff, hd] at hge
      have hsub := toNat_sub_of_le (hd ▸ hge : div.toNat ≤ num.toNat)
      rw [hd] at hsub
      apply ih _ _ _ (by omega) _ _ hdiv'
      · rw [toNat_setQuotientBit quot (by omega) hquot]
        exact Nat.dvd_add (Nat.dvd_trans (Nat.pow_dvd_pow 2 (Nat.le_succ m)) hquot) dvd_rfl
      · rw [hsub, toNat_setQuotientBit quot (by omega) hquot, ← hsum]
        have : D * 2 ^ m ≤ num.toNat := hge
        calc num.toNat - D * 2 ^ m + (quot.toNat + 2 ^ m) * D
            = num.toNat - D * 2 ^ m + D * 2 ^ m + quot.toNat * D := by ring
          _ = num.toNat + quot.toNat * D := by rw [Nat.sub_add_cancel this]
      · rw [hsub]
        rw [hpow] at hnum
        omega
    · -- `num < div`: only realign the divisor
      rw [if_neg hge]
      rw [ge_iff, hd] at hge
      exact ih _ _ _ (by omega) hsum (by omega) hdiv'
        (Nat.dvd_trans (Nat.pow_dvd_pow 2 (Nat.le_succ m)) hquot)

/-- **`operator/=` is floor division, and throws `uint_error` on a zero divisor.** -/
theorem div_map_toNat (a b : BaseUint WIDTH) :
    (a.div b).map toNat =
      if b.toNat = 0 then .error "Division by zero" else .ok (a.toNat / b.toNat) := by
  have hsize : b.toNat.size = 0 ↔ b.toNat = 0 := Nat.size_eq_zero
  rw [div, bits_eq_size, bits_eq_size]
  by_cases hb : b.toNat = 0
  · rw [if_pos (hsize.mpr hb), if_pos hb]
    rfl
  rw [if_neg (mt hsize.mp hb), if_neg hb]
  -- `2 ^ (size - 1) ≤ x < 2 ^ size` for the divisor and the numerator
  have hbpos : 0 < b.toNat.size := Nat.pos_of_ne_zero (mt hsize.mp hb)
  have hblow : 2 ^ (b.toNat.size - 1) ≤ b.toNat := Nat.lt_size.mp (by omega)
  have hahigh : a.toNat < 2 ^ a.toNat.size := Nat.lt_size_self _
  have hatop : a.toNat.size ≤ 32 * WIDTH := Nat.size_le.mpr a.toNat_lt
  by_cases hgt : b.toNat.size > a.toNat.size
  · -- the divisor has more bits: the quotient is zero
    rw [if_pos hgt]
    change Except.ok zero.toNat = _
    have hlt : a.toNat < b.toNat :=
      calc a.toNat < 2 ^ a.toNat.size := hahigh
        _ ≤ 2 ^ (b.toNat.size - 1) := Nat.pow_le_pow_right (by decide) (by omega)
        _ ≤ b.toNat := hblow
    rw [toNat_zero, Nat.div_eq_of_lt hlt]
  · rw [if_neg hgt]
    change Except.ok (divLoop _ _ _ _).toNat = _
    -- `div <<= shift` aligns the top bits; it cannot overflow below `a`'s size
    have hshift : b.toNat * 2 ^ (a.toNat.size - b.toNat.size) < 2 ^ a.toNat.size :=
      calc b.toNat * 2 ^ (a.toNat.size - b.toNat.size)
          < 2 ^ b.toNat.size * 2 ^ (a.toNat.size - b.toNat.size) :=
            Nat.mul_lt_mul_of_pos_right (Nat.lt_size_self _) (Nat.two_pow_pos _)
        _ = 2 ^ a.toNat.size := by rw [← Nat.pow_add]; congr 1; omega
    have hnum : a.toNat < b.toNat * 2 ^ (a.toNat.size - b.toNat.size + 1) :=
      calc a.toNat < 2 ^ a.toNat.size := hahigh
        _ = 2 ^ (b.toNat.size - 1) * 2 ^ (a.toNat.size - b.toNat.size + 1) := by
          rw [← Nat.pow_add]; congr 1; omega
        _ ≤ b.toNat * 2 ^ (a.toNat.size - b.toNat.size + 1) := Nat.mul_le_mul_right _ hblow
    congr 1
    apply divLoop_spec _ _ _ _ (by omega) (by simp) hnum
    · intro m hm
      rw [toNat_shiftLeft, Nat.mod_eq_of_lt, ← Nat.add_one_inj.mp hm]
      calc b.toNat * 2 ^ (a.toNat.size - b.toNat.size) < 2 ^ a.toNat.size := hshift
        _ ≤ 2 ^ (32 * WIDTH) := Nat.pow_le_pow_right (by decide) hatop
    · simp

/-! ## The whole interface -/

/-- **`base_uint` arithmetic is exact modulo `2 ^ (32 * WIDTH)`.**  Addition,
subtraction, both multiplications, the shifts (which give zero from the width on), the
complement, negation, increment and decrement are the integer results reduced modulo
`2 ^ (32 * WIDTH)`; `CompareTo` is the order of the values, `bits()` their bit length,
and `operator/=` the floor quotient, throwing on a zero divisor. -/
theorem baseUint_exact (a b : BaseUint WIDTH) (c : UInt32) (s : Nat) :
    (a.add b).toNat = (a.toNat + b.toNat) % 2 ^ (32 * WIDTH) ∧
      ((a.sub b).toNat : Int) = ((a.toNat : Int) - b.toNat) % 2 ^ (32 * WIDTH) ∧
      (a.mul b).toNat = a.toNat * b.toNat % 2 ^ (32 * WIDTH) ∧
      (a.mul32 c).toNat = a.toNat * c.toNat % 2 ^ (32 * WIDTH) ∧
      (a.shiftLeft s).toNat = a.toNat * 2 ^ s % 2 ^ (32 * WIDTH) ∧
      (a.shiftRight s).toNat = a.toNat / 2 ^ s ∧
      (a.shiftLeft (32 * WIDTH + s)).toNat = 0 ∧ (a.shiftRight (32 * WIDTH + s)).toNat = 0 ∧
      a.bnot.toNat = 2 ^ (32 * WIDTH) - 1 - a.toNat ∧
      (a.neg.toNat : Int) = -(a.toNat : Int) % 2 ^ (32 * WIDTH) ∧
      a.inc.toNat = (a.toNat + 1) % 2 ^ (32 * WIDTH) ∧
      (a.dec.toNat : Int) = ((a.toNat : Int) - 1) % 2 ^ (32 * WIDTH) ∧
      a.compareTo b = (if a.toNat < b.toNat then -1 else if b.toNat < a.toNat then 1 else 0) ∧
      a.bits = a.toNat.size ∧
      (a.div b).map toNat =
        if b.toNat = 0 then .error "Division by zero" else .ok (a.toNat / b.toNat) := by
  -- a shift by the width or more moves every bit out
  have hfar : 2 ^ (32 * WIDTH) ≤ 2 ^ (32 * WIDTH + s) := Nat.pow_le_pow_right (by decide) (by omega)
  have hleft : (a.shiftLeft (32 * WIDTH + s)).toNat = 0 := by
    rw [toNat_shiftLeft]
    exact Nat.mod_eq_zero_of_dvd ⟨a.toNat * 2 ^ s, by rw [Nat.pow_add]; ring⟩
  have hright : (a.shiftRight (32 * WIDTH + s)).toNat = 0 := by
    rw [toNat_shiftRight, Nat.div_eq_of_lt (lt_of_lt_of_le a.toNat_lt hfar)]
  exact ⟨toNat_add a b, toNat_sub a b, toNat_mul a b, toNat_mul32 a c, toNat_shiftLeft a s,
    toNat_shiftRight a s, hleft, hright, toNat_bnot a, toNat_neg a, toNat_inc a, toNat_dec a,
    compareTo_eq a b, bits_eq_size a, div_map_toNat a b⟩

end BaseUint

end Sumcoin
