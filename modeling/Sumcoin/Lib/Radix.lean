import Mathlib

/-!
# In-place radix conversion

A big number held in a fixed buffer of `n` digits in base `base`, least significant first
(`digitsLE`), and the pass that multiplies it by `mul` and adds a carry digit by digit,
stopping once the carry is spent and the digits in use are passed (`mulAddPass`).  This is
the inner loop of a radix conversion done in place: a pass on the digits of `v` leaves the
digits of `mul * v + carry`, the carry that did not fit, and the number of digits now in
use (`mulAddPass_digitsLE`).

How large a buffer has to be is a comparison of powers: from `a ^ p ≤ b ^ q`, a number of
`n` digits in base `a` fits in `n * q / p + 1` digits in base `b` (`pow_lt_pow_div_add_one`).
-/

namespace Radix

/-- The `n` low digits of `v` in base `base`, least significant first. -/
def digitsLE (base : Nat) : Nat → Nat → List Nat
  | 0, _ => []
  | n + 1, v => v % base :: digitsLE base n (v / base)

/-- One pass of the multiply-and-add over `digits`, least significant first: each digit `d`
becomes `(carry + mul * d) % base` and passes `(carry + mul * d) / base` on, while the carry
is not zero or fewer than `length` digits are passed (`i` counts them).  The result is the
new digits, the carry left and the digits passed. -/
def mulAddPass (base mul : Nat) : (carry i length : Nat) → List Nat → List Nat × Nat × Nat
  | carry, i, _, [] => ([], carry, i)
  | carry, i, length, d :: ds =>
    if carry ≠ 0 ∨ i < length then
      let c := carry + mul * d
      let r := mulAddPass base mul (c / base) (i + 1) length ds
      (c % base :: r.1, r.2.1, r.2.2)
    else (d :: ds, carry, i)

variable {base : Nat}

@[simp] theorem length_digitsLE (n v : Nat) : (digitsLE base n v).length = n := by
  induction n generalizing v with
  | zero => rfl
  | succ n ih => simp [digitsLE, ih]

@[simp] theorem digitsLE_zero (n : Nat) : digitsLE base n 0 = List.replicate n 0 := by
  induction n with
  | zero => rfl
  | succ n ih => simp [digitsLE, ih, List.replicate_succ]

/-- Below `base ^ n`, the buffer holds the digits of `v` and zeros above them. -/
theorem digitsLE_eq_digits_append (hb : 1 < base) {n v : Nat} (hv : v < base ^ n) :
    digitsLE base n v = Nat.digits base v ++ List.replicate (n - (Nat.digits base v).length) 0 := by
  induction n generalizing v with
  | zero =>
    have hv0 : v = 0 := by simpa using hv
    subst hv0
    simp [digitsLE]
  | succ n ih =>
    rcases Nat.eq_zero_or_pos v with rfl | hpos
    · simp
    · have hdiv : v / base < base ^ n := by
        rw [Nat.div_lt_iff_lt_mul (by omega), ← Nat.pow_succ]
        exact hv
      rw [digitsLE, ih hdiv, Nat.digits_def' hb hpos, List.length_cons, List.cons_append,
        Nat.succ_sub_succ]

/-- The digits needed for `v` grow with `v`. -/
theorem length_digits_mono {v w : Nat} (h : v ≤ w) :
    (Nat.digits base v).length ≤ (Nat.digits base w).length :=
  Nat.le_length_digits_le base v w h

/-- Dividing by the base drops one digit. -/
theorem length_digits_div (hb : 1 < base) (v : Nat) :
    (Nat.digits base (v / base)).length = (Nat.digits base v).length - 1 := by
  rcases Nat.eq_zero_or_pos v with rfl | hpos
  · simp
  · rw [Nat.digits_def' hb hpos, List.length_cons, Nat.add_sub_cancel]

/-- A pass over the digits of `v`, all of whose digits lie below `length`, leaves the digits
of `mul * v + carry`, the part of it that does not fit, and the digits now in use.  The
induction is on the buffer; `i` is the position of its first digit. -/
theorem mulAddPass_digitsLE (hb : 1 < base) (mul : Nat) {n v : Nat} (carry i length : Nat)
    (hv : v < base ^ n) (hlen : v < base ^ (length - i)) :
    mulAddPass base mul carry i length (digitsLE base n v) =
      (digitsLE base n (mul * v + carry), (mul * v + carry) / base ^ n,
        i + min n (max (length - i) (Nat.digits base (mul * v + carry)).length)) := by
  induction n generalizing v carry i with
  | zero =>
    have hv0 : v = 0 := by simpa using hv
    subst hv0
    simp [digitsLE, mulAddPass]
  | succ n ih =>
    rw [digitsLE, mulAddPass]
    by_cases hgo : carry ≠ 0 ∨ i < length
    case pos =>
      rw [if_pos hgo]
      -- the low digit of `mul * v + carry` is written, its high part carried into the rest
      have hsplit : mul * v + carry = base * (mul * (v / base) + (carry + mul * (v % base)) / base) +
          (carry + mul * (v % base)) % base := by
        have h1 := Nat.div_add_mod v base
        have h2 := Nat.div_add_mod (carry + mul * (v % base)) base
        calc mul * v + carry = mul * (base * (v / base) + v % base) + carry := by rw [h1]
          _ = base * (mul * (v / base)) + (carry + mul * (v % base)) := by ring
          _ = base * (mul * (v / base)) + (base * ((carry + mul * (v % base)) / base) +
                (carry + mul * (v % base)) % base) := by rw [h2]
          _ = _ := by ring
      have hdiv : v / base < base ^ n := by
        rw [Nat.div_lt_iff_lt_mul (by omega), ← Nat.pow_succ]
        exact hv
      have hlen' : v / base < base ^ (length - (i + 1)) := by
        rcases Nat.lt_or_ge i length with hi | hi
        · rw [Nat.div_lt_iff_lt_mul (by omega), ← Nat.pow_succ,
            show (length - (i + 1)).succ = length - i by omega]
          exact hlen
        · have : v = 0 := by simpa [Nat.sub_eq_zero_of_le hi] using hlen
          rw [this, Nat.zero_div]
          exact Nat.pow_pos (by omega)
      have hmod : (mul * v + carry) % base = (carry + mul * (v % base)) % base := by
        rw [hsplit, Nat.add_comm, Nat.add_mul_mod_self_left, Nat.mod_mod]
      have hquot : (mul * v + carry) / base =
          mul * (v / base) + (carry + mul * (v % base)) / base := by
        rw [hsplit, Nat.mul_add_div (by omega), Nat.div_eq_of_lt (Nat.mod_lt _ (by omega)),
          Nat.add_zero]
      have hdigits : (Nat.digits base (mul * v + carry)).length ≠ 0 ∨ i < length := by
        rcases hgo with hc | hi
        · left
          rw [Ne, List.length_eq_zero_iff, Nat.digits_eq_nil_iff_eq_zero]
          omega
        · exact Or.inr hi
      dsimp only
      rw [ih _ _ hdiv hlen', ← hquot, digitsLE, hmod, length_digits_div hb, Nat.pow_succ',
        ← Nat.div_div_eq_div_mul]
      simp only [Prod.mk.injEq, true_and]
      omega
    case neg =>
      rw [if_neg hgo]
      -- nothing is carried and every digit is above `length`: the number is zero
      have hc : carry = 0 := by omega
      have hv0 : v = 0 := by simpa [Nat.sub_eq_zero_of_le (by omega : length ≤ i)] using hlen
      subst hc hv0
      simp [digitsLE, Nat.sub_eq_zero_of_le (show length ≤ i by omega)]

/-- The step of a conversion loop: the buffer holds the digits of `v` with
`(Nat.digits base v).length` in use, and `mul * v + carry` still fits, so the pass carries
nothing out and leaves the digits of `mul * v + carry` with their count in use. -/
theorem mulAddPass_of_lt (hb : 1 < base) {mul : Nat} (hmul : 1 ≤ mul) {n v : Nat} (carry : Nat)
    (hfit : mul * v + carry < base ^ n) :
    mulAddPass base mul carry 0 (Nat.digits base v).length (digitsLE base n v) =
      (digitsLE base n (mul * v + carry), 0, (Nat.digits base (mul * v + carry)).length) := by
  have hle : v ≤ mul * v + carry := le_add_right (Nat.le_mul_of_pos_left v hmul)
  have hlen := @length_digits_mono base _ _ hle
  have hn := (Nat.digits_length_le_iff hb _).mpr hfit
  rw [mulAddPass_digitsLE hb mul carry 0 _ (by omega) (by simpa using Nat.lt_base_pow_length_digits hb),
    Nat.div_eq_of_lt hfit]
  simp only [Nat.sub_zero, Nat.zero_add, Prod.mk.injEq, true_and]
  omega

/-- The buffer read from its top, past the unused digits: the digits of `v`, most
significant first. -/
theorem drop_reverse_digitsLE (hb : 1 < base) {n v : Nat} (hv : v < base ^ n) :
    (digitsLE base n v).reverse.drop (n - (Nat.digits base v).length) =
      (Nat.digits base v).reverse := by
  rw [digitsLE_eq_digits_append hb hv, List.reverse_append, List.reverse_replicate,
    List.drop_left' (List.length_replicate ..)]

/-- The digits of a number, most significant first, start with a nonzero digit. -/
theorem dropWhile_reverse_digits (v : Nat) :
    (Nat.digits base v).reverse.dropWhile (· == 0) = (Nat.digits base v).reverse := by
  rcases Nat.eq_zero_or_pos v with rfl | hpos
  · simp
  · have hne : Nat.digits base v ≠ [] := Nat.digits_ne_nil_iff_ne_zero.mpr hpos.ne'
    have hlast := Nat.getLast_digit_ne_zero base hpos.ne'
    rcases hrev : (Nat.digits base v).reverse with _ | ⟨x, l⟩
    · rfl
    · have hx : (Nat.digits base v).getLast hne = x := by
        rw [← List.head_reverse (by simpa using hne)]
        simp [hrev]
      rw [List.dropWhile_cons_of_neg (by simpa [← hx] using hlast)]

/-- Room left in a buffer of capacity `B`: with room for `k + 1` more digits above `N`, there
is room for `k` more above `b * N + d`. -/
theorem mul_add_succ_mul_pow_le {b N d k B : Nat} (hd : d < b) (h : (N + 1) * b ^ (k + 1) ≤ B) :
    (b * N + d + 1) * b ^ k ≤ B :=
  calc (b * N + d + 1) * b ^ k ≤ ((N + 1) * b) * b ^ k := by
        apply Nat.mul_le_mul_right
        rw [Nat.add_mul, Nat.one_mul, Nat.mul_comm N b]
        omega
    _ = (N + 1) * b ^ (k + 1) := by rw [Nat.pow_succ']; ring
    _ ≤ B := h

/-- One step of a conversion loop into a buffer of `n` digits with room for the `k + 1`
digits in base `mul` still to come: the pass adds digit `d` and leaves room for `k`. -/
theorem mulAddPass_step (hb : 1 < base) {mul d N k n : Nat} (hd : d < mul)
    (hroom : (N + 1) * mul ^ (k + 1) ≤ base ^ n) :
    mulAddPass base mul d 0 (Nat.digits base N).length (digitsLE base n N) =
        (digitsLE base n (mul * N + d), 0, (Nat.digits base (mul * N + d)).length) ∧
      (mul * N + d + 1) * mul ^ k ≤ base ^ n := by
  have hroom' := mul_add_succ_mul_pow_le hd hroom
  have hfit : mul * N + d < base ^ n :=
    lt_of_lt_of_le (Nat.lt_succ_self _)
      (le_trans (Nat.le_mul_of_pos_right _ (Nat.pow_pos (by omega))) hroom')
  exact ⟨mulAddPass_of_lt hb (by omega) d hfit, hroom'⟩

/-- A conversion loop read most significant digit first computes `Nat.ofDigits` of the
reversed digits, on top of what it started from. -/
theorem foldl_mul_add (b N : Nat) (D : List Nat) :
    D.foldl (fun N d => b * N + d) N = Nat.ofDigits b D.reverse + N * b ^ D.length := by
  induction D generalizing N with
  | nil => simp
  | cons d D ih =>
    rw [List.foldl_cons, ih, List.reverse_cons, Nat.ofDigits_append, List.length_reverse,
      Nat.ofDigits_singleton, List.length_cons, Nat.pow_succ]
    ring

/-- Digits written most significant first, with a nonzero first digit, are the digits of
the number they spell. -/
theorem digits_ofDigits_reverse (hb : 1 < base) {D : List Nat} (hD : ∀ d ∈ D, d < base)
    (hhead : ∀ h : D ≠ [], D.head h ≠ 0) :
    (Nat.digits base (Nat.ofDigits base D.reverse)).reverse = D := by
  rw [Nat.digits_ofDigits base hb D.reverse (by simpa using hD)]
  · exact List.reverse_reverse D
  · intro h
    rw [List.getLast_reverse]
    exact hhead _

/-- The most significant digit of a number is never zero. -/
theorem head?_reverse_digits_ne_zero (b n : Nat) : (Nat.digits b n).reverse.head? ≠ some 0 := by
  rw [List.head?_reverse]
  rcases Nat.eq_zero_or_pos n with rfl | hpos
  · simp
  · rw [List.getLast?_eq_some_getLast (Nat.digits_ne_nil_iff_ne_zero.mpr hpos.ne'), ne_eq,
      Option.some_inj]
    exact Nat.getLast_digit_ne_zero b hpos.ne'

/-- Digits of `n` in base `a` fit in `n * q / p + 1` digits in base `b` once `a ^ p ≤ b ^ q`. -/
theorem pow_lt_pow_div_add_one {a b p q : Nat} (hab : a ^ p ≤ b ^ q) (hp : 0 < p) (hb : 1 < b)
    (n : Nat) : a ^ n < b ^ (n * q / p + 1) := by
  have hlt : q * n < p * (n * q / p + 1) := by
    have := Nat.lt_div_mul_add (a := n * q) hp
    rw [Nat.mul_comm q n]
    calc n * q < n * q / p * p + p := this
      _ = p * (n * q / p + 1) := by ring
  have hpow : (a ^ n) ^ p < (b ^ (n * q / p + 1)) ^ p :=
    calc (a ^ n) ^ p = (a ^ p) ^ n := by rw [← Nat.pow_mul, ← Nat.pow_mul, Nat.mul_comm]
      _ ≤ (b ^ q) ^ n := Nat.pow_le_pow_left hab n
      _ = b ^ (q * n) := by rw [← Nat.pow_mul]
      _ < b ^ (p * (n * q / p + 1)) := Nat.pow_lt_pow_right hb hlt
      _ = (b ^ (n * q / p + 1)) ^ p := by rw [← Nat.pow_mul, Nat.mul_comm]
  exact (Nat.pow_lt_pow_iff_left (by omega)).mp hpow

end Radix
