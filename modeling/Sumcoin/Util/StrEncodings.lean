import Sumcoin.Lib.Decimal

/-!
# Fixed-point amounts: `ParseFixedPoint` in `util/strencodings.cpp`

`ParseFixedPoint(val, decimals, &amount_out)` reads a JSON number and gives it times
`10^decimals` as an integer, refusing what it cannot hold exactly.  It keeps the mantissa
with its trailing zeros deferred (`mantissa_tzeros`), counts the digits after the point
(`point_ofs`), reads an exponent, and scales at the end.  Sumcoin's copy takes at most six
digits after the point into the mantissa and skips the others.

## Main definitions

* `processMantissaDigit`, `parseFixedPoint`, and the phases the latter runs:
  `signPart`, `integerPart`, `fractionPart`, `exponentPart`, `scaleFixedPoint`.

## Main statements

* `parseFixedPoint_plain`: a plain decimal with one to six digits after the point is read
  exactly.
* `parseFixedPoint_truncates`: the digits after the sixth never matter.
-/

namespace Sumcoin

open Decimal

/-- `UPPER_BOUND = 10^18 - 1`. -/
def upperBound : Int := 1000000000000000000 - 1

/-- `k` rounds of `if (overflows(mantissa)) return false; mantissa *= 10;`. -/
def timesTenChecked (overflows : Int → Bool) : Nat → Int → Option Int
  | 0, m => some m
  | k + 1, m => if overflows m then none else timesTenChecked overflows k (m * 10)

/-- `ProcessMantissaDigit(ch, mantissa, mantissa_tzeros)`: a zero is only counted; any other
digit first brings the counted zeros into the mantissa. -/
def processMantissaDigit (ch : Char) (mantissa : Int) (mantissa_tzeros : Nat) :
    Option (Int × Nat) :=
  if ch = '0' then some (mantissa, mantissa_tzeros + 1)
  else do
    let mantissa ← timesTenChecked (fun m => decide (m > upperBound / 10)) (mantissa_tzeros + 1) mantissa
    pure (mantissa + digitVal ch, 0)

/-- The loop over the integer digits. -/
def integerDigits (mantissa : Int) (mantissa_tzeros : Nat) :
    List Char → Option (Int × Nat × List Char)
  | c :: cs =>
    if c.isDigit then do
      let (mantissa, mantissa_tzeros) ← processMantissaDigit c mantissa mantissa_tzeros
      integerDigits mantissa mantissa_tzeros cs
    else some (mantissa, mantissa_tzeros, c :: cs)
  | [] => some (mantissa, mantissa_tzeros, [])

/-- The loop over the fraction digits: while `sumcoin_digits` lasts a digit goes into the
mantissa and `point_ofs`; after that, digits are skipped. -/
def fractionDigits (sumcoin_digits : Nat) (mantissa : Int) (mantissa_tzeros point_ofs : Nat) :
    List Char → Option (Int × Nat × Nat × List Char)
  | c :: cs =>
    if c.isDigit then
      if sumcoin_digits ≠ 0 then do
        let (mantissa, mantissa_tzeros) ← processMantissaDigit c mantissa mantissa_tzeros
        fractionDigits (sumcoin_digits - 1) mantissa mantissa_tzeros (point_ofs + 1) cs
      else fractionDigits sumcoin_digits mantissa mantissa_tzeros point_ofs cs
    else some (mantissa, mantissa_tzeros, point_ofs, c :: cs)
  | [] => some (mantissa, mantissa_tzeros, point_ofs, [])

/-- The loop over the exponent digits. -/
def exponentDigits (exponent : Int) : List Char → Option (Int × List Char)
  | c :: cs =>
    if c.isDigit then
      if exponent > upperBound / 10 then none
      else exponentDigits (exponent * 10 + digitVal c) cs
    else some (exponent, c :: cs)
  | [] => some (exponent, [])

/-- The optional `-`. -/
def signPart : List Char → Bool × List Char
  | '-' :: rest => (true, rest)
  | rest => (false, rest)

/-- The integer part: a single `0`, or digits led by `1`..`9`. -/
def integerPart : List Char → Option (Int × Nat × List Char)
  | c :: cs =>
    if c = '0' then some (0, 0, cs)
    else if '1' ≤ c ∧ c ≤ '9' then integerDigits 0 0 (c :: cs)
    else none
  | [] => none

/-- The fraction part, which needs a digit after the point. -/
def fractionPart (mantissa : Int) (mantissa_tzeros : Nat) :
    List Char → Option (Int × Nat × Nat × List Char)
  | '.' :: cs =>
    match cs with
    | c :: _ => if c.isDigit then fractionDigits 6 mantissa mantissa_tzeros 0 cs else none
    | [] => none
  | rest => some (mantissa, mantissa_tzeros, 0, rest)

/-- The exponent part: `e` or `E`, an optional sign, and at least one digit. -/
def exponentPart : List Char → Option (Bool × Int × List Char)
  | c :: cs =>
    if c = 'e' ∨ c = 'E' then
      let (exponent_sign, rest) : Bool × List Char := match cs with
        | '+' :: rest => (false, rest)
        | '-' :: rest => (true, rest)
        | rest => (false, rest)
      match rest with
      | d :: _ =>
        if d.isDigit then (exponentDigits 0 rest).map fun (e, rest) => (exponent_sign, e, rest)
        else none
      | [] => none
    else some (false, 0, c :: cs)
  | [] => some (false, 0, [])

/-- The end of `ParseFixedPoint`: the exponent with the point offset, the deferred zeros and
`decimals`, then the mantissa multiplied out with its range checked. -/
def scaleFixedPoint (mantissa_sign exponent_sign : Bool) (mantissa exponent : Int)
    (mantissa_tzeros point_ofs : Nat) (decimals : Int) : Option Int :=
  let exponent := if exponent_sign then -exponent else exponent
  let exponent := exponent - point_ofs + mantissa_tzeros
  let mantissa := if mantissa_sign then -mantissa else mantissa
  let exponent := exponent + decimals
  if exponent < 0 then none
  else if exponent ≥ 18 then none
  else do
    let mantissa ← timesTenChecked
      (fun m => decide (m > upperBound / 10) || decide (m < -(upperBound / 10))) exponent.toNat mantissa
    if mantissa > upperBound ∨ mantissa < -upperBound then none else some mantissa

/-- `ParseFixedPoint(val, decimals, &amount_out)`: `some amount_out` when it returns true. -/
def parseFixedPoint (val : List Char) (decimals : Int) : Option Int := do
  let (mantissa_sign, rest) := signPart val
  let (mantissa, mantissa_tzeros, rest) ← integerPart rest
  let (mantissa, mantissa_tzeros, point_ofs, rest) ← fractionPart mantissa mantissa_tzeros rest
  let (exponent_sign, exponent, rest) ← exponentPart rest
  if rest ≠ [] then none
  else scaleFixedPoint mantissa_sign exponent_sign mantissa exponent mantissa_tzeros point_ofs decimals

example : parseFixedPoint "1.1e-1".toList 8 = some 11000000 := by decide
example : parseFixedPoint "-9999999999.999999".toList 8 = some (-999999999999999900) := by decide
example : parseFixedPoint "00.1".toList 8 = none := by decide

/-! ## Bounded scaling -/

/-- The scaling loop multiplies by `10 ^ k` when no round overflows. -/
theorem timesTenChecked_eq (overflows : Int → Bool) {k : Nat} {m : Int}
    (h : ∀ i < k, overflows (m * 10 ^ i) = false) : timesTenChecked overflows k m = some (m * 10 ^ k) := by
  induction k generalizing m with
  | zero => simp [timesTenChecked]
  | succ k ih =>
    have h0 : overflows m = false := by simpa using h 0 (Nat.succ_pos k)
    rw [timesTenChecked, if_neg (by simp [h0]), ih]
    · congr 1
      ring
    · intro i hi
      rw [mul_assoc, ← pow_succ']
      exact h (i + 1) (by omega)

theorem upperBound_div_ten : upperBound / 10 = 10 ^ 17 - 1 := by decide

/-- A non-negative mantissa with room for one more digit takes it without overflow. -/
theorem processMantissaDigit_spec {c : Char} (hc : c.isDigit = true) {m : Int} {t : Nat}
    (hm : 0 ≤ m) (hb : m * 10 ^ t * 10 < 10 ^ 18) :
    ∃ m' t', processMantissaDigit c m t = some (m', t') ∧ 0 ≤ m' ∧ t' ≤ t + 1 ∧
      m' * 10 ^ t' = m * 10 ^ t * 10 + digitVal c := by
  by_cases h0 : c = '0'
  · subst h0
    refine ⟨m, t + 1, by simp [processMantissaDigit], hm, le_rfl, ?_⟩
    simp [digitVal, pow_succ, mul_assoc]
  · have hno : ∀ i < t + 1, decide (m * 10 ^ i > upperBound / 10) = false := by
      intro i hi
      have hle : m * 10 ^ i ≤ m * 10 ^ t :=
        mul_le_mul_of_nonneg_left (pow_le_pow_right₀ (by norm_num) (by omega)) hm
      rw [upperBound_div_ten]
      simp only [decide_eq_false_iff_not, not_lt]
      omega
    refine ⟨m * 10 ^ (t + 1) + digitVal c, 0, ?_, by positivity, by omega, ?_⟩
    · rw [processMantissaDigit, if_neg h0, timesTenChecked_eq (fun m => decide (m > upperBound / 10)) hno]
      rfl
    · rw [pow_succ]
      ring

/-! ## The digit loops -/

/-- A digit more keeps the mantissa within the bound that the whole digit string meets. -/
theorem step_bound {V d v : Int} (hV : 0 ≤ V) (hd : 0 ≤ d) (hv : 0 ≤ v) {n : Nat}
    (hb : V * 10 ^ (n + 1) + (d * 10 ^ n + v) < 10 ^ 18) :
    V * 10 < 10 ^ 18 ∧ (V * 10 + d) * 10 ^ n + v < 10 ^ 18 := by
  have hpow : (1 : Int) ≤ 10 ^ n := one_le_pow₀ (by norm_num)
  have hsplit : (V * 10 + d) * 10 ^ n + v = V * 10 ^ (n + 1) + (d * 10 ^ n + v) := by ring
  refine ⟨?_, by rw [hsplit]; exact hb⟩
  have hle : V * 10 ≤ V * 10 ^ (n + 1) := by
    rw [pow_succ, mul_comm (10 ^ n) 10, ← mul_assoc]
    exact le_mul_of_one_le_right (by positivity) hpow
  nlinarith

theorem integerDigits_stop {rest : List Char} (hrest : ∀ c ∈ rest.head?, c.isDigit = false)
    (m : Int) (t : Nat) : integerDigits m t rest = some (m, t, rest) := by
  cases rest with
  | nil => rfl
  | cons c cs => simp [integerDigits, hrest c rfl]

/-- The integer digits loop reads the digits `ds` into the mantissa and stops before `rest`. -/
theorem integerDigits_spec {ds : List Char} (hds : AllDigits ds) {rest : List Char}
    (hrest : ∀ c ∈ rest.head?, c.isDigit = false) :
    ∀ {m : Int} {t : Nat}, 0 ≤ m → m * 10 ^ t * 10 ^ ds.length + value ds < 10 ^ 18 →
      ∃ m' t', integerDigits m t (ds ++ rest) = some (m', t', rest) ∧ 0 ≤ m' ∧
        t' ≤ t + ds.length ∧ m' * 10 ^ t' = m * 10 ^ t * 10 ^ ds.length + value ds := by
  induction ds with
  | nil =>
    intro m t hm _
    exact ⟨m, t, integerDigits_stop hrest m t, hm, by simp, by simp⟩
  | cons c ds ih =>
    intro m t hm hb
    have hc := hds c (List.mem_cons_self ..)
    rw [value_cons, List.length_cons] at hb
    push_cast at hb
    obtain ⟨hstep, hnext⟩ :=
      step_bound (mul_nonneg hm (by positivity)) (Int.natCast_nonneg _) (Int.natCast_nonneg _) hb
    obtain ⟨m1, t1, hp, hm1, ht1, hv1⟩ := processMantissaDigit_spec hc hm hstep
    obtain ⟨m', t', hl, hm', ht', hv'⟩ :=
      ih (fun x hx => hds x (List.mem_cons_of_mem c hx)) hm1 (by rw [hv1]; exact hnext)
    refine ⟨m', t', ?_, hm', by simp; omega, ?_⟩
    · rw [List.cons_append, integerDigits, if_pos hc, hp]
      exact hl
    · rw [hv', hv1, value_cons, List.length_cons, pow_succ]
      push_cast
      ring

/-- The fraction digits loop, within its budget, reads the digits `ds` into the mantissa,
counts them in `point_ofs` and stops before `rest`. -/
theorem fractionDigits_spec {ds : List Char} (hds : AllDigits ds) {rest : List Char}
    (hrest : ∀ c ∈ rest.head?, c.isDigit = false) :
    ∀ {b : Nat} {m : Int} {t p : Nat}, ds.length ≤ b → 0 ≤ m →
      m * 10 ^ t * 10 ^ ds.length + value ds < 10 ^ 18 →
      ∃ m' t', fractionDigits b m t p (ds ++ rest) = some (m', t', p + ds.length, rest) ∧ 0 ≤ m' ∧
        t' ≤ t + ds.length ∧ m' * 10 ^ t' = m * 10 ^ t * 10 ^ ds.length + value ds := by
  induction ds with
  | nil =>
    intro b m t p _ hm _
    refine ⟨m, t, ?_, hm, by simp, by simp⟩
    cases rest with
    | nil => rfl
    | cons c cs => simp [fractionDigits, hrest c rfl]
  | cons c ds ih =>
    intro b m t p hlen hm hb
    have hc := hds c (List.mem_cons_self ..)
    have hb0 : b ≠ 0 := by simp at hlen; omega
    rw [value_cons, List.length_cons] at hb
    push_cast at hb
    obtain ⟨hstep, hnext⟩ :=
      step_bound (mul_nonneg hm (by positivity)) (Int.natCast_nonneg _) (Int.natCast_nonneg _) hb
    obtain ⟨m1, t1, hp, hm1, ht1, hv1⟩ := processMantissaDigit_spec hc hm hstep
    obtain ⟨m', t', hl, hm', ht', hv'⟩ := @ih (fun x hx => hds x (List.mem_cons_of_mem c hx))
      (b - 1) m1 t1 (p + 1) (by simp at hlen; omega) hm1 (by rw [hv1]; exact hnext)
    refine ⟨m', t', ?_, hm', by simp; omega, ?_⟩
    · rw [List.cons_append, fractionDigits, if_pos hc, if_pos hb0, hp]
      exact hl.trans (by rw [List.length_cons, Nat.add_assoc, Nat.add_comm 1])
    · rw [hv', hv1, value_cons, List.length_cons, pow_succ]
      push_cast
      ring

/-- With its budget spent, the fraction loop skips digits. -/
theorem fractionDigits_skip {ds : List Char} (hds : AllDigits ds) (m : Int) (t p : Nat)
    (rest : List Char) : fractionDigits 0 m t p (ds ++ rest) = fractionDigits 0 m t p rest := by
  induction ds with
  | nil => rfl
  | cons c ds ih =>
    rw [List.cons_append, fractionDigits, if_pos (hds c (List.mem_cons_self ..)), if_neg (by simp),
      ih (fun x hx => hds x (List.mem_cons_of_mem c hx))]

/-- The fraction loop over `ds` and what follows depends on what follows only through the
loop with its budget spent. -/
theorem fractionDigits_congr {Y Y' : List Char}
    (h : ∀ m t p, fractionDigits 0 m t p Y = fractionDigits 0 m t p Y') {ds : List Char}
    (hds : AllDigits ds) :
    ∀ m t p, fractionDigits ds.length m t p (ds ++ Y) = fractionDigits ds.length m t p (ds ++ Y') := by
  induction ds with
  | nil => exact h
  | cons c ds ih =>
    intro m t p
    have hc := hds c (List.mem_cons_self ..)
    simp only [List.cons_append, fractionDigits, if_pos hc, List.length_cons, ne_eq,
      Nat.add_one_ne_zero, not_false_eq_true, if_true, Nat.add_sub_cancel]
    cases processMantissaDigit c m t with
    | none => rfl
    | some s => exact ih (fun x hx => hds x (List.mem_cons_of_mem c hx)) s.1 s.2 (p + 1)

/-- The integer digits loop stops at the first other character, whatever follows it. -/
theorem integerDigits_append {c : Char} (hc : c.isDigit = false) (X : List Char) {ds : List Char}
    (hds : AllDigits ds) :
    ∀ m t, integerDigits m t (ds ++ c :: X) = (integerDigits m t ds).map fun s => (s.1, s.2.1, c :: X) := by
  induction ds with
  | nil => intro m t; simp [integerDigits, hc]
  | cons d ds ih =>
    intro m t
    simp only [List.cons_append, integerDigits, if_pos (hds d (List.mem_cons_self ..))]
    cases processMantissaDigit d m t with
    | none => rfl
    | some s => exact ih (fun x hx => hds x (List.mem_cons_of_mem d hx)) s.1 s.2

/-! ## Plain decimals -/

/-- The integer part of the JSON number grammar: a single `0`, or digits led by `1`..`9`. -/
def IntegerDigits (ip : List Char) : Prop :=
  ip = ['0'] ∨ ∃ c cs, ip = c :: cs ∧ '1' ≤ c ∧ c ≤ '9' ∧ AllDigits cs

/-- The sign as the source writes it: `-` or nothing. -/
def signChars (neg : Bool) : List Char := if neg then ['-'] else []

theorem IntegerDigits.allDigits {ip : List Char} (h : IntegerDigits ip) : AllDigits ip := by
  rcases h with rfl | ⟨c, cs, rfl, h1, h9, hcs⟩
  · intro x hx
    rw [List.mem_singleton.mp hx]
    rfl
  · intro x hx
    rcases List.mem_cons.mp hx with rfl | hx
    · simp only [Char.isDigit, Bool.and_eq_true, decide_eq_true_eq]
      exact ⟨le_trans (by decide) h1, h9⟩
    · exact hcs x hx

/-- `%d` of a natural number prints a well-formed integer part. -/
theorem integerDigits_toDigits (q : Nat) : IntegerDigits (Nat.toDigits 10 q) := by
  rcases Nat.eq_zero_or_pos q with rfl | hq
  · left
    rfl
  · right
    obtain ⟨c, cs, hcs, h1, h9⟩ := toDigits_head hq
    have hall := allDigits_toDigits q
    rw [hcs] at hall
    exact ⟨c, cs, hcs, h1, h9, fun x hx => hall x (List.mem_cons_of_mem c hx)⟩

theorem signPart_signChars (neg : Bool) {body : List Char} (hb : ∀ c ∈ body.head?, c ≠ '-') :
    signPart (signChars neg ++ body) = (neg, body) := by
  cases neg with
  | true => rfl
  | false =>
    cases body with
    | nil => rfl
    | cons c cs => simp [signChars, signPart, hb c rfl]

theorem IntegerDigits.head_ne {ip : List Char} (h : IntegerDigits ip) (X : List Char) :
    ∀ c ∈ (ip ++ X).head?, c ≠ '-' := by
  rcases h with rfl | ⟨c, cs, rfl, h1, h9, _⟩
  · intro x hx
    simp at hx
    rw [← hx]
    decide
  · intro x hx
    simp at hx
    rw [← hx]
    intro h
    rw [h] at h1
    exact absurd h1 (by decide)

/-- The integer part stops at the first other character, whatever follows it. -/
theorem integerPart_append {ip : List Char} (hip : IntegerDigits ip) {c : Char}
    (hc : c.isDigit = false) (X : List Char) :
    integerPart (ip ++ c :: X) = (integerPart ip).map fun s => (s.1, s.2.1, c :: X) := by
  rcases hip with rfl | ⟨d, ds, rfl, h1, h9, hds⟩
  · rfl
  · have hd0 : d ≠ '0' := fun h => absurd (h ▸ h1) (by decide)
    have hdd : AllDigits (d :: ds) := IntegerDigits.allDigits (Or.inr ⟨d, ds, rfl, h1, h9, hds⟩)
    simp only [List.cons_append, integerPart, if_neg hd0, if_pos (And.intro h1 h9)]
    exact integerDigits_append hc X hdd 0 0

/-- `ParseFixedPoint` reads what follows the point only through the fraction part. -/
theorem parseFixedPoint_congr_fraction (neg : Bool) {ip : List Char} (hip : IntegerDigits ip)
    {X X' : List Char} (h : ∀ m t, fractionPart m t ('.' :: X) = fractionPart m t ('.' :: X'))
    (decimals : Int) :
    parseFixedPoint (signChars neg ++ ip ++ '.' :: X) decimals =
      parseFixedPoint (signChars neg ++ ip ++ '.' :: X') decimals := by
  simp only [parseFixedPoint, List.append_assoc, signPart_signChars neg (hip.head_ne _),
    integerPart_append hip (by decide : '.'.isDigit = false)]
  cases integerPart ip with
  | none => rfl
  | some s =>
    simp only [Option.map_some, Option.bind_eq_bind, Option.bind_some]
    rw [h]

theorem fractionPart_point {c : Char} (hc : c.isDigit = true) (m : Int) (t : Nat) (cs : List Char) :
    fractionPart m t ('.' :: c :: cs) = fractionDigits 6 m t 0 (c :: cs) := by
  simp [fractionPart, hc]

/-- **Truncation**: the digits after the sixth one past the point are skipped, whatever they
are and whatever `decimals` asks for. -/
theorem parseFixedPoint_truncates (neg : Bool) {ip : List Char} (hip : IntegerDigits ip)
    {f6 r : List Char} (hf6 : f6.length = 6) (hdigits : AllDigits (f6 ++ r)) (post : List Char)
    (decimals : Int) :
    parseFixedPoint (signChars neg ++ ip ++ '.' :: (f6 ++ r ++ post)) decimals =
      parseFixedPoint (signChars neg ++ ip ++ '.' :: (f6 ++ post)) decimals := by
  have hf : AllDigits f6 := fun x hx => hdigits x (List.mem_append_left r hx)
  have hr : AllDigits r := fun x hx => hdigits x (List.mem_append_right f6 hx)
  obtain ⟨c, cs, rfl⟩ := List.exists_cons_of_length_eq_add_one hf6
  have hc : c.isDigit = true := hf c (List.mem_cons_self ..)
  -- past the sixth digit the budget is spent, and the skipped digits `r` drop out
  have hloop := fractionDigits_congr (fun m t p => fractionDigits_skip hr m t p post) hf
  rw [hf6] at hloop
  apply parseFixedPoint_congr_fraction neg hip _ decimals
  intro m t
  rw [List.append_assoc, List.cons_append, List.cons_append, fractionPart_point hc,
    fractionPart_point hc, ← List.cons_append, ← List.cons_append]
  exact hloop m t 0

/-- `"0.0000001"` reads as `"0.000000"`, at any number of decimals. -/
theorem parseFixedPoint_truncates_seventhDecimal :
    IntegerDigits ['0'] ∧ AllDigits (['0', '0', '0', '0', '0', '0'] ++ ['1']) ∧
      parseFixedPoint (signChars false ++ ['0'] ++ '.' :: (['0', '0', '0', '0', '0', '0'] ++ ['1'] ++ [])) 8 =
        parseFixedPoint (signChars false ++ ['0'] ++ '.' :: (['0', '0', '0', '0', '0', '0'] ++ [])) 8 := by
  have hip : IntegerDigits ['0'] := .inl rfl
  have hdigits : AllDigits (['0', '0', '0', '0', '0', '0'] ++ ['1']) := by
    intro c hc
    simp only [List.cons_append, List.nil_append, List.mem_cons, List.not_mem_nil, or_false] at hc
    rcases hc with rfl | rfl | rfl | rfl | rfl | rfl | rfl <;> decide
  exact ⟨hip, hdigits, parseFixedPoint_truncates false hip rfl hdigits [] 8⟩

/-- A well-formed integer part is read whole into the mantissa. -/
theorem integerPart_spec {ip : List Char} (hip : IntegerDigits ip) (hb : value ip < 10 ^ 18) :
    ∃ m t, integerPart ip = some (m, t, []) ∧ 0 ≤ m ∧ (t = 0 ∨ 0 < value ip) ∧
      m * 10 ^ t = (value ip : Int) := by
  rcases hip with rfl | ⟨c, cs, rfl, h1, h9, hcs⟩
  · exact ⟨0, 0, rfl, le_rfl, Or.inl rfl, by simp [value, digitVal]⟩
  · have hc0 : c ≠ '0' := fun h => absurd (h ▸ h1) (by decide)
    have hall : AllDigits (c :: cs) := IntegerDigits.allDigits (Or.inr ⟨c, cs, rfl, h1, h9, hcs⟩)
    obtain ⟨m, t, hl, hm, -, hv⟩ := @integerDigits_spec _ hall [] (by simp) 0 0 le_rfl
      (by simpa using hb)
    have hpos : 0 < value (c :: cs) := by
      rw [value_cons]
      have : 0 < digitVal c := by
        simp only [digitVal]
        have : '1'.toNat ≤ c.toNat := h1
        simp at this ⊢
        omega
      positivity
    refine ⟨m, t, ?_, hm, Or.inr hpos, by simpa using hv⟩
    rw [integerPart, if_neg hc0, if_pos (And.intro h1 h9)]
    simpa using hl

/-- Up to its factor `10 ^ i`, a mantissa below the final bound stays below the bound of
every round of the scaling loop. -/
theorem mul_pow_lt_of_lt {m : Int} (hm : 0 ≤ m) {i e : Nat} (hi : i < e) (hb : m * 10 ^ e < 10 ^ 18) :
    m * 10 ^ i * 10 < 10 ^ 18 := by
  have hle : m * 10 ^ (i + 1) ≤ m * 10 ^ e :=
    mul_le_mul_of_nonneg_left (pow_le_pow_right₀ (by norm_num) hi) hm
  rw [pow_succ, ← mul_assoc] at hle
  omega

/-- The scaling at the end, for a non-negative mantissa and no exponent part. -/
theorem scaleFixedPoint_eq (neg : Bool) {m : Int} (hm : 0 ≤ m) {e : Nat} (t p : Nat) (decimals : Int)
    (he : (e : Int) = 0 - p + t + decimals) (he18 : e < 18) (hb : m * 10 ^ e < 10 ^ 18) :
    scaleFixedPoint neg false m 0 t p decimals = some (if neg then -(m * 10 ^ e) else m * 10 ^ e) := by
  have hno : ∀ i < e, m * 10 ^ i ≤ upperBound / 10 := by
    intro i hi
    have := mul_pow_lt_of_lt hm hi hb
    rw [upperBound_div_ten]
    omega
  have hpos : ∀ i : Nat, 0 ≤ m * 10 ^ i := fun i => mul_nonneg hm (by positivity)
  have hub : upperBound = 10 ^ 18 - 1 := by decide
  simp only [scaleFixedPoint, Bool.false_eq_true, if_false, ← he, Int.toNat_natCast]
  rw [if_neg (by omega), if_neg (by omega)]
  cases neg with
  | false =>
    rw [if_neg Bool.false_ne_true, timesTenChecked_eq _ (fun i hi => by
      have := hno i hi
      have := hpos i
      simp only [Bool.or_eq_false_iff, decide_eq_false_iff_not]
      omega)]
    simp only [Option.bind_eq_bind, Option.bind_some]
    rw [if_neg (by rw [hub]; have := hpos e; omega), if_neg Bool.false_ne_true]
  | true =>
    rw [if_pos rfl, timesTenChecked_eq _ (fun i hi => by
      have := hno i hi
      have := hpos i
      simp only [neg_mul, Bool.or_eq_false_iff, decide_eq_false_iff_not]
      omega)]
    simp only [Option.bind_eq_bind, Option.bind_some, neg_mul]
    rw [if_neg (by rw [hub]; have := hpos e; omega), if_pos trivial]

/-- **Plain decimals** are read exactly: a sign, an integer part, a point and one to six
digits, at `decimals` no smaller than the count of digits after the point and at most 17,
give the digits' value times `10 ^ (decimals - fp.length)` when it stays below `10 ^ 18`. -/
theorem parseFixedPoint_plain (neg : Bool) {ip fp : List Char} (hip : IntegerDigits ip)
    (hfp : AllDigits fp) (hfp0 : fp ≠ []) (hfp6 : fp.length ≤ 6) {decimals : Nat}
    (hd : fp.length ≤ decimals) (hd17 : decimals ≤ 17)
    (hb : value (ip ++ fp) * 10 ^ (decimals - fp.length) < 10 ^ 18) :
    parseFixedPoint (signChars neg ++ ip ++ '.' :: fp) decimals =
      some (if neg then -((value (ip ++ fp) * 10 ^ (decimals - fp.length) : Nat) : Int)
        else ((value (ip ++ fp) * 10 ^ (decimals - fp.length) : Nat) : Int)) := by
  rw [value_append] at hb ⊢
  have hVb : value ip * 10 ^ fp.length + value fp < 10 ^ 18 :=
    lt_of_le_of_lt (Nat.le_mul_of_pos_right _ (by positivity)) hb
  have hip18 : value ip < 10 ^ 18 :=
    lt_of_le_of_lt (Nat.le_mul_of_pos_right _ (by positivity)) (lt_of_le_of_lt (Nat.le_add_right _ _) hVb)
  obtain ⟨m1, t1, hi1, hm1, ht1, hv1⟩ := integerPart_spec hip hip18
  obtain ⟨m2, t2, hf2, hm2, ht2, hv2⟩ := @fractionDigits_spec _ hfp [] (by simp) 6 m1 t1 0 hfp6 hm1
    (by rw [hv1]; exact_mod_cast hVb)
  obtain ⟨c, cs, rfl⟩ := List.exists_cons_of_ne_nil hfp0
  have hc : c.isDigit = true := hfp c (List.mem_cons_self ..)
  -- the phases run through: the integer part, six digits at most, no exponent
  have hparse : parseFixedPoint (signChars neg ++ ip ++ '.' :: c :: cs) decimals =
      scaleFixedPoint neg false m2 0 t2 (c :: cs).length decimals := by
    rw [List.append_nil] at hf2
    simp only [parseFixedPoint, List.append_assoc, signPart_signChars neg (hip.head_ne _),
      integerPart_append hip (by decide : '.'.isDigit = false), hi1, Option.map_some,
      Option.bind_eq_bind, Option.bind_some, fractionPart_point hc, hf2, zero_add]
    rfl
  set e := t2 + (decimals - (c :: cs).length) with he_def
  have he : (e : Int) = 0 - ((c :: cs).length : Nat) + t2 + (decimals : Int) := by
    rw [he_def]
    push_cast [Nat.cast_sub hd]
    ring
  have hm2e : m2 * 10 ^ e =
      ((value ip * 10 ^ (c :: cs).length + value (c :: cs)) * 10 ^ (decimals - (c :: cs).length) : Nat) := by
    rw [he_def, pow_add, ← mul_assoc, hv2, hv1]
    push_cast
    ring
  have he18 : e < 18 := by
    rcases Nat.eq_zero_or_pos (value ip * 10 ^ (c :: cs).length + value (c :: cs)) with h0 | hpos
    · -- a zero value has a bare `0` before the point, which adds no deferred zeros
      have ht1z : t1 = 0 := ht1.resolve_right (by
        have : value ip * 10 ^ (c :: cs).length = 0 := by omega
        simp_all)
      omega
    · have hm2pos : 0 < m2 := by
        have : (0 : Int) < m2 * 10 ^ t2 := by rw [hv2, hv1]; exact_mod_cast hpos
        exact pos_of_mul_pos_left this (by positivity)
      have hlt : (10 : Int) ^ e < 10 ^ 18 := by
        calc (10 : Int) ^ e ≤ m2 * 10 ^ e := le_mul_of_one_le_left (by positivity) hm2pos
          _ < 10 ^ 18 := by rw [hm2e]; exact_mod_cast hb
      exact (pow_lt_pow_iff_right₀ (by norm_num)).mp hlt
  rw [hparse, scaleFixedPoint_eq neg hm2 t2 _ _ he he18 (by rw [hm2e]; exact_mod_cast hb), hm2e]

/-- At eight decimals, one unit is read as zero and a ninth decimal is not refused. -/
theorem parseFixedPoint_drops_eighth_decimal :
    parseFixedPoint "0.00000001".toList 8 = some 0 ∧ parseFixedPoint "0.000000001".toList 8 = some 0 := by
  decide

end Sumcoin
