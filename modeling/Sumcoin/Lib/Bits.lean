import Mathlib

/-!
# Bit strings, most significant bit first

A stream that packs values into bytes from the top bit of each byte down reads as one list
of bits, in which each value's bits stand most significant first and so do each byte's.
This file gives that reading of a number (`Bits.ofNat w n`, the `w` low bits of `n`) and of
a list of bytes (`Bits.ofBytes`), the number a list of bits denotes (`Bits.toNat`), and the
lemmas by which a writer or a reader of such a stream is compared with the list: where the
reading of a number splits, which bits of the number it depends on, and that the two
directions are inverse.

## Main definitions

* `Bits.ofNat`, `Bits.toNat`, `Bits.ofBytes`.
-/

namespace Bits

/-- The `w` low bits of `n`, most significant first. -/
def ofNat : (w n : Nat) → List Bool
  | 0, _ => []
  | w + 1, n => n.testBit w :: ofNat w n

/-- The number whose bits, most significant first, are `bs`. -/
def toNat (bs : List Bool) : Nat := bs.foldl (fun acc b => 2 * acc + b.toNat) 0

/-- The bits of the bytes, each byte most significant bit first. -/
def ofBytes (bytes : List UInt8) : List Bool := bytes.flatMap fun b => ofNat 8 b.toNat

/-! ## Reading a number -/

@[simp] theorem ofNat_zero (n : Nat) : ofNat 0 n = [] := rfl

theorem ofNat_succ (w n : Nat) : ofNat (w + 1) n = n.testBit w :: ofNat w n := rfl

@[simp] theorem length_ofNat (w n : Nat) : (ofNat w n).length = w := by
  induction w with
  | zero => rfl
  | succ w ih => rw [ofNat_succ, List.length_cons, ih]

/-- Bit `i` of the reading is bit `w - 1 - i` of the number. -/
theorem getElem_ofNat {w n i : Nat} (h : i < (ofNat w n).length) : (ofNat w n)[i] = n.testBit (w - 1 - i) := by
  induction w generalizing i with
  | zero => simp at h
  | succ w ih =>
    cases i with
    | zero => rfl
    | succ i =>
      simp only [ofNat_succ, List.getElem_cons_succ]
      rw [ih]
      congr 1
      simp at h
      omega

/-- The reading of a number depends on its low `w` bits only. -/
theorem ofNat_congr {w m n : Nat} (h : ∀ i < w, m.testBit i = n.testBit i) : ofNat w m = ofNat w n := by
  induction w with
  | zero => rfl
  | succ w ih =>
    rw [ofNat_succ, ofNat_succ, h w (Nat.lt_succ_self w), ih fun i hi => h i (by omega)]

theorem ofNat_mod_two_pow (w n : Nat) : ofNat w (n % 2 ^ w) = ofNat w n :=
  ofNat_congr fun i hi => by rw [Nat.testBit_mod_two_pow, decide_eq_true hi, Bool.true_and]

/-- The reading splits at a bit position: the bits above it, then those below. -/
theorem ofNat_add (a b n : Nat) : ofNat (a + b) n = ofNat a (n >>> b) ++ ofNat b n := by
  induction a with
  | zero => rw [Nat.zero_add, ofNat_zero, List.nil_append]
  | succ a ih =>
    rw [Nat.add_right_comm, ofNat_succ, ih, ofNat_succ, List.cons_append, Nat.testBit_shiftRight,
      Nat.add_comm b a]

/-- The high `c` bits of a reading, then its low `k - c` bits, are the reading. -/
theorem take_append_ofNat {c k : Nat} (n : Nat) (h : c ≤ k) : (ofNat k n).take c ++ ofNat (k - c) n = ofNat k n := by
  have e := ofNat_add c (k - c) n
  rw [Nat.add_sub_cancel' h] at e
  rw [e, List.take_left' (length_ofNat c _)]

theorem drop_ofNat {c k : Nat} (n : Nat) (h : c ≤ k) : (ofNat k n).drop c = ofNat (k - c) n := by
  have e := ofNat_add c (k - c) n
  rw [Nat.add_sub_cancel' h] at e
  rw [e, List.drop_left' (length_ofNat c _)]

theorem ofNat_eq_replicate_true {w n : Nat} (h : ∀ i < w, n.testBit i = true) :
    ofNat w n = List.replicate w true := by
  induction w with
  | zero => rfl
  | succ w ih => rw [ofNat_succ, h w (Nat.lt_succ_self w), ih fun i hi => h i (by omega), List.replicate_succ]

@[simp] theorem ofNat_zero_right (w : Nat) : ofNat w 0 = List.replicate w false := by
  induction w with
  | zero => rfl
  | succ w ih => rw [ofNat_succ, Nat.zero_testBit, ih, List.replicate_succ]

theorem ofNat_eq_replicate_false {w n : Nat} (h : ∀ i < w, n.testBit i = false) :
    ofNat w n = List.replicate w false :=
  (ofNat_congr fun i hi => by rw [h i hi, Nat.zero_testBit]).trans (ofNat_zero_right w)

/-! ## The number a list denotes -/

theorem foldl_toNat (bs : List Bool) (init : Nat) :
    bs.foldl (fun acc b => 2 * acc + b.toNat) init = init * 2 ^ bs.length + toNat bs := by
  induction bs generalizing init with
  | nil => simp [toNat]
  | cons b bs ih =>
    rw [List.foldl_cons, ih]
    conv_rhs => rw [toNat, List.foldl_cons, ih]
    rw [List.length_cons, pow_succ]
    ring

@[simp] theorem toNat_nil : toNat [] = 0 := rfl

theorem toNat_append (l₁ l₂ : List Bool) : toNat (l₁ ++ l₂) = toNat l₁ * 2 ^ l₂.length + toNat l₂ := by
  rw [toNat, List.foldl_append, foldl_toNat]
  rfl

theorem toNat_cons (b : Bool) (bs : List Bool) : toNat (b :: bs) = b.toNat * 2 ^ bs.length + toNat bs := by
  rw [← List.singleton_append, toNat_append]
  cases b <;> rfl

theorem toNat_lt (bs : List Bool) : toNat bs < 2 ^ bs.length := by
  induction bs with
  | nil => exact Nat.one_pos
  | cons b bs ih =>
    rw [toNat_cons, List.length_cons, pow_succ]
    have hb : b.toNat ≤ 1 := Bool.toNat_le b
    nlinarith

theorem toNat_ofNat (w n : Nat) : toNat (ofNat w n) = n % 2 ^ w := by
  induction w with
  | zero => rw [ofNat_zero, toNat_nil, pow_zero, Nat.mod_one]
  | succ w ih =>
    rw [ofNat_succ, toNat_cons, ih, length_ofNat, Nat.toNat_testBit, Nat.mod_pow_succ]
    ring

/-- A list is the reading of the number it denotes. -/
theorem ofNat_toNat (bs : List Bool) : ofNat bs.length (toNat bs) = bs := by
  induction bs with
  | nil => rfl
  | cons b bs ih =>
    rw [List.length_cons, ofNat_succ, toNat_cons, Nat.mul_comm, Nat.testBit_two_pow_mul_add _ (toNat_lt bs),
      if_neg (Nat.lt_irrefl _), Nat.sub_self]
    have hlow : ofNat bs.length (2 ^ bs.length * b.toNat + toNat bs) = bs := by
      rw [← ofNat_mod_two_pow, Nat.mul_add_mod, Nat.mod_eq_of_lt (toNat_lt bs), ih]
    rw [hlow]
    cases b <;> rfl

/-! ## Bytes -/

@[simp] theorem ofBytes_nil : ofBytes [] = [] := rfl

theorem ofBytes_cons (b : UInt8) (bytes : List UInt8) : ofBytes (b :: bytes) = ofNat 8 b.toNat ++ ofBytes bytes :=
  List.flatMap_cons

theorem ofBytes_append (xs ys : List UInt8) : ofBytes (xs ++ ys) = ofBytes xs ++ ofBytes ys :=
  List.flatMap_append

@[simp] theorem length_ofBytes (bytes : List UInt8) : (ofBytes bytes).length = 8 * bytes.length := by
  induction bytes with
  | nil => rfl
  | cons b bytes ih =>
    rw [ofBytes_cons, List.length_append, length_ofNat, ih, List.length_cons]
    ring

end Bits
