import Mathlib

/-!
# Decimal digit strings

The characters `'0'..'9'` read as a number, most significant first, and the strings that
`Nat.toDigits 10` prints, which is what `printf("%d")` writes for a natural number.

## Main definitions

* `Decimal.digitVal`: `c - '0'`.
* `Decimal.value`: the number a digit string spells.

## Main statements

* `Decimal.value_toDigits`: printing a number and reading it back gives the number.
* `Decimal.foldl_value`: a left fold of `10 * acc + digit` from any start.
-/

namespace Decimal

/-- `c - '0'`. -/
def digitVal (c : Char) : Nat := c.toNat - '0'.toNat

/-- The number that the digits `cs` spell, most significant first. -/
def value (cs : List Char) : Nat := cs.foldl (fun acc c => 10 * acc + digitVal c) 0

/-- All characters of `cs` are decimal digits. -/
def AllDigits (cs : List Char) : Prop := ∀ c ∈ cs, c.isDigit = true

@[simp] theorem value_nil : value [] = 0 := rfl

/-- The fold behind `value`, from any start. -/
theorem foldl_value (a : Nat) (cs : List Char) :
    cs.foldl (fun acc c => 10 * acc + digitVal c) a = a * 10 ^ cs.length + value cs := by
  induction cs generalizing a with
  | nil => simp
  | cons c cs ih =>
    have hv : value (c :: cs) = (10 * 0 + digitVal c) * 10 ^ cs.length + value cs := ih _
    rw [List.foldl_cons, ih, hv, List.length_cons, pow_succ]
    ring

theorem value_append (xs ys : List Char) : value (xs ++ ys) = value xs * 10 ^ ys.length + value ys := by
  rw [value, List.foldl_append, foldl_value]
  rfl

theorem value_cons (c : Char) (cs : List Char) :
    value (c :: cs) = digitVal c * 10 ^ cs.length + value cs := by
  rw [show c :: cs = [c] ++ cs from rfl, value_append]
  simp [value]

theorem digitVal_lt {c : Char} (h : c.isDigit = true) : digitVal c < 10 := by
  simp only [Char.isDigit, Bool.and_eq_true, decide_eq_true_eq] at h
  have h1 : '0'.toNat ≤ c.toNat := h.1
  have h2 : c.toNat ≤ '9'.toNat := h.2
  simp only [digitVal]
  simp at h1 h2 ⊢
  omega

theorem value_lt {cs : List Char} (h : AllDigits cs) : value cs < 10 ^ cs.length := by
  induction cs with
  | nil => simp
  | cons c cs ih =>
    have hc := digitVal_lt (h c (List.mem_cons_self ..))
    have ht := ih (fun x hx => h x (List.mem_cons_of_mem c hx))
    rw [value_cons, List.length_cons, pow_succ]
    nlinarith

theorem digitVal_digitChar {n : Nat} (h : n < 10) : digitVal (Nat.digitChar n) = n := by
  interval_cases n <;> rfl

theorem isDigit_digitChar {n : Nat} (h : n < 10) : (Nat.digitChar n).isDigit = true := by
  interval_cases n <;> rfl

/-- `Nat.toDigits 10` writes decimal digits only. -/
theorem allDigits_toDigits (n : Nat) : AllDigits (Nat.toDigits 10 n) := by
  induction n using Nat.strong_induction_on with
  | _ n ih =>
    by_cases hn : n < 10
    · rw [Nat.toDigits_of_lt_base hn]
      intro c hc
      rw [List.mem_singleton.mp hc]
      exact isDigit_digitChar hn
    · have hsplit := @Nat.toDigits_append_toDigits 10 (n / 10) (n % 10) (by norm_num) (by omega)
        (Nat.mod_lt _ (by norm_num))
      rw [Nat.div_add_mod] at hsplit
      rw [← hsplit]
      intro c hc
      rcases List.mem_append.mp hc with h | h
      · exact ih (n / 10) (by omega) c h
      · rw [Nat.toDigits_of_lt_base (Nat.mod_lt _ (by norm_num)), List.mem_singleton] at h
        rw [h]
        exact isDigit_digitChar (Nat.mod_lt _ (by norm_num))

/-- **Printing then reading back**: the digits `Nat.toDigits 10 n` spell `n`. -/
theorem value_toDigits (n : Nat) : value (Nat.toDigits 10 n) = n := by
  induction n using Nat.strong_induction_on with
  | _ n ih =>
    by_cases hn : n < 10
    · rw [Nat.toDigits_of_lt_base hn, value_cons]
      simp [digitVal_digitChar hn]
    · have hsplit := @Nat.toDigits_append_toDigits 10 (n / 10) (n % 10) (by norm_num) (by omega)
        (Nat.mod_lt _ (by norm_num))
      rw [Nat.div_add_mod] at hsplit
      rw [← hsplit, value_append, ih (n / 10) (by omega),
        Nat.toDigits_of_lt_base (Nat.mod_lt _ (by norm_num)), value_cons]
      simp [digitVal_digitChar (Nat.mod_lt n (by norm_num : 10 > 0))]
      omega

/-- A positive number is printed with a leading digit `1`..`9`. -/
theorem toDigits_head {n : Nat} (hn : 0 < n) :
    ∃ c cs, Nat.toDigits 10 n = c :: cs ∧ '1' ≤ c ∧ c ≤ '9' := by
  induction n using Nat.strong_induction_on with
  | _ n ih =>
    by_cases h10 : n < 10
    · refine ⟨Nat.digitChar n, [], Nat.toDigits_of_lt_base h10, ?_⟩
      interval_cases n <;> decide
    · have hsplit := @Nat.toDigits_append_toDigits 10 (n / 10) (n % 10) (by norm_num) (by omega)
        (Nat.mod_lt _ (by norm_num))
      rw [Nat.div_add_mod] at hsplit
      obtain ⟨c, cs, hcs, hc⟩ := ih (n / 10) (by omega) (by omega)
      exact ⟨c, cs ++ Nat.toDigits 10 (n % 10), by rw [← hsplit, hcs, List.cons_append], hc⟩

theorem length_toDigits_le {n e : Nat} (he : 0 < e) (hn : n < 10 ^ e) : (Nat.toDigits 10 n).length ≤ e :=
  Nat.toDigits_length 10 n e he hn

@[simp] theorem value_replicate_zero (k : Nat) : value (List.replicate k '0') = 0 := by
  induction k with
  | zero => rfl
  | succ k ih =>
    rw [List.replicate_succ, value_cons, ih]
    simp [digitVal]

/-- Leading zeros do not change the value. -/
theorem value_leftpad (w : Nat) (cs : List Char) : value (List.leftpad w '0' cs) = value cs := by
  rw [List.leftpad, value_append, value_replicate_zero, zero_mul, zero_add]

theorem allDigits_leftpad {w : Nat} {cs : List Char} (h : AllDigits cs) :
    AllDigits (List.leftpad w '0' cs) := by
  intro c hc
  rw [List.leftpad, List.mem_append] at hc
  rcases hc with hc | hc
  · rw [List.eq_of_mem_replicate hc]
    rfl
  · exact h c hc

theorem AllDigits.append {xs ys : List Char} (hx : AllDigits xs) (hy : AllDigits ys) :
    AllDigits (xs ++ ys) := by
  intro c hc
  rcases List.mem_append.mp hc with h | h
  · exact hx c h
  · exact hy c h

end Decimal
