import Sumcoin.Util.StrEncodings
import Sumcoin.Primitives.Transaction

/-!
# Amounts as text: `util/moneystr.cpp` and the RPC amount conversions

`FormatMoney` prints an amount as whole coins, a point and six decimals, and trims trailing
zeros down to two decimals; `ParseMoney` reads whole coins and at most six decimals back.
`ValueFromAmount` writes the six decimals untrimmed into a JSON number, which
`AmountFromValue` reads with `ParseFixedPoint` at six decimals and checks with `MoneyRange`.

Strings are lists of characters.  `strprintf`'s `%d` and `%06d` are written out, and
`atoi64` is the C library's `strtoll`, clamped to the `int64_t` range.  A `UniValue` keeps
the two fields `AmountFromValue` reads: its type and its text.

## Main definitions

* `formatMoney`, `parseMoney`, `valueFromAmount`, `amountFromValue`.

## Main statements

* `parseMoney_formatMoney`: `ParseMoney` reads back what `FormatMoney` prints.
* `amountFromValue_valueFromAmount`: the RPC conversions are inverse on the money range.
* `parseMoney_bound`: an accepted string gives a value in `0..10^16`.
-/

namespace Sumcoin

namespace MoneyStr

open Decimal

/-! ## Characters and `printf` -/

/-- `IsSpace(c)`: space, `\f`, `\n`, `\r`, `\t` or `\v`. -/
def isSpace (c : Char) : Bool :=
  c == ' ' || c == Char.ofNat 12 || c == Char.ofNat 10 || c == Char.ofNat 13 || c == Char.ofNat 9 ||
    c == Char.ofNat 11

/-- The default pattern of `TrimString`, `" \f\n\r\t\v"`. -/
def spacePattern : List Char :=
  [' ', Char.ofNat 12, Char.ofNat 10, Char.ofNat 13, Char.ofNat 9, Char.ofNat 11]

/-- `%d`. -/
def printfD (i : Int) : List Char := (if i < 0 then ['-'] else []) ++ Nat.toDigits 10 i.natAbs

/-- `%06d`: zero-padded to six characters, the sign counted. -/
def printf06d (i : Int) : List Char :=
  if i < 0 then '-' :: List.leftpad 5 '0' (Nat.toDigits 10 i.natAbs)
  else List.leftpad 6 '0' (Nat.toDigits 10 i.natAbs)

/-- `ValidAsCString(str)`: `str.size() == strlen(str.c_str())`, no embedded NUL. -/
def validAsCString (str : List Char) : Bool :=
  str.length == (str.takeWhile fun c => c.toNat != 0).length

/-- `TrimString(str, pattern)`: what lies between the first and the last character not in
`pattern`, or nothing. -/
def trimString (str pattern : List Char) : List Char :=
  ((str.dropWhile pattern.contains).reverse.dropWhile pattern.contains).reverse

/-- `strtoll(str, nullptr, 10)`: leading spaces, an optional sign and the digits that follow;
out of range it returns `LLONG_MAX` or `LLONG_MIN`. -/
def strtoll (str : List Char) : Int :=
  let str := str.dropWhile isSpace
  let (neg, digits) : Bool × List Char := match str with
    | '-' :: rest => (true, rest)
    | '+' :: rest => (false, rest)
    | rest => (false, rest)
  let v : Int := value (digits.takeWhile Char.isDigit)
  max (-2 ^ 63) (min (2 ^ 63 - 1) (if neg then -v else v))

/-- `atoi64(str)`. -/
def atoi64 (str : List Char) : Int := strtoll str

/-! ## `FormatMoney` and `ParseMoney` -/

/-- The trim loop of `FormatMoney`,
`for (int i = str.size()-1; (str[i] == '0' && IsDigit(str[i-2])); --i) ++nTrim;`,
over the string read from its end. -/
def trimCount : List Char → Nat
  | c :: c1 :: c2 :: rest => if c = '0' ∧ c2.isDigit then trimCount (c1 :: c2 :: rest) + 1 else 0
  | _ => 0

/-- `FormatMoney(n)`. -/
def formatMoney (n : CAmount) : List Char :=
  let n_abs := if n > 0 then n else -n
  let quotient := n_abs.tdiv coin
  let remainder := n_abs.tmod coin
  let str := printfD quotient ++ '.' :: printf06d remainder
  let nTrim := trimCount str.reverse
  let str := if nTrim ≠ 0 then str.take (str.length - nTrim) else str
  if n < 0 then '-' :: str else str

/-- The decimals of `ParseMoney`: `nUnits += nMult * (*p++ - '0'); nMult /= 10;` while a digit
follows and `nMult > 0`.  Gives `nUnits` and the unread rest. -/
def unitDigits (nUnits nMult : Int) : List Char → Int × List Char
  | c :: cs =>
    if c.isDigit ∧ nMult > 0 then unitDigits (nUnits + nMult * digitVal c) (nMult / 10) cs
    else (nUnits, c :: cs)
  | [] => (nUnits, [])

/-- The loop of `ParseMoney`: the digits before the point go to `strWhole`; at the point the
decimals are read and the loop ends.  Gives `strWhole`, `nUnits` and the unread rest, or
`none` at a space or another character that is not a digit. -/
def parseMoneyLoop (strWhole : List Char) : List Char → Option (List Char × Int × List Char)
  | c :: cs =>
    if c = '.' then
      let (nUnits, rest) := unitDigits 0 (coin / 10) cs
      some (strWhole, nUnits, rest)
    else if isSpace c then none
    else if !c.isDigit then none
    else parseMoneyLoop (strWhole ++ [c]) cs
  | [] => some (strWhole, 0, [])

/-- `ParseMoney(money_string, nRet)`: `some nRet` when it returns true. -/
def parseMoney (money_string : List Char) : Option CAmount :=
  if !validAsCString money_string then none
  else
    let str := trimString money_string spacePattern
    if str = [] then none
    else do
      let (strWhole, nUnits, rest) ← parseMoneyLoop [] str
      if rest ≠ [] then none
      else if strWhole.length > 10 then none
      else if nUnits < 0 ∨ nUnits > coin then none
      else
        let nWhole := atoi64 strWhole
        some (nWhole * coin + nUnits)

example : formatMoney 150000000 = "150.00".toList := by decide
example : formatMoney (-1234567) = "-1.234567".toList := by decide
example : parseMoney " 12.5 ".toList = some 12500000 := by decide
example : parseMoney "0.0000001".toList = none := by decide

/-! ## Characters above the spaces -/

theorem isSpace_eq_false {c : Char} (h : 32 < c.toNat) : isSpace c = false := by
  cases hs : isSpace c with
  | false => rfl
  | true =>
    simp only [isSpace, Bool.or_eq_true, beq_iff_eq] at hs
    rcases hs with ((((hs | hs) | hs) | hs) | hs) | hs <;> subst hs <;> exact absurd h (by decide)

/-- `TrimString`'s default pattern holds the characters `IsSpace` accepts. -/
theorem contains_spacePattern (c : Char) : spacePattern.contains c = isSpace c := by
  rw [Bool.eq_iff_iff]
  simp [spacePattern, isSpace, or_assoc]

theorem validAsCString_of_forall {str : List Char} (h : ∀ c ∈ str, c.toNat ≠ 0) :
    validAsCString str = true := by
  rw [validAsCString, List.takeWhile_eq_self_iff.mpr (by simpa using h)]
  simp

theorem trimString_of_forall {str pattern : List Char} (h : ∀ c ∈ str, pattern.contains c = false) :
    trimString str pattern = str := by
  have hdrop : ∀ l : List Char, (∀ c ∈ l, pattern.contains c = false) → l.dropWhile pattern.contains = l := by
    intro l hl
    rw [List.dropWhile_eq_self_iff]
    intro hpos
    simpa using hl _ (List.getElem_mem hpos)
  rw [trimString, hdrop str h, hdrop str.reverse (fun c hc => h c (List.mem_reverse.mp hc)),
    List.reverse_reverse]

theorem toNat_of_isDigit {c : Char} (h : c.isDigit = true) : 48 ≤ c.toNat ∧ c.toNat ≤ 57 := by
  simp only [Char.isDigit, Bool.and_eq_true, decide_eq_true_eq] at h
  exact h

/-! ## The loops -/

/-- The trimmed characters are zeros. -/
theorem take_trimCount (l : List Char) : l.take (trimCount l) = List.replicate (trimCount l) '0' := by
  fun_induction trimCount l with
  | case1 c c1 c2 rest h ih =>
    rw [List.take_succ_cons, ih, h.1]
    rfl
  | case2 c c1 c2 rest h => rfl
  | case3 t h => rfl

/-- The trim loop stops two places before a character that is not a digit. -/
theorem trimCount_add_two_le {l : List Char} {j : Nat} (hj : 2 ≤ j) {c : Char} (hc : l[j]? = some c)
    (hnd : c.isDigit = false) : trimCount l + 2 ≤ j := by
  fun_induction trimCount l generalizing j with
  | case1 c0 c1 c2 rest h ih =>
    rcases Nat.lt_or_ge 2 j with hj3 | hj2
    · have := ih (j := j - 1) (by omega) (by
        rw [← hc]
        obtain ⟨i, rfl⟩ : ∃ i, j = i + 1 := ⟨j - 1, by omega⟩
        simp)
      omega
    · obtain rfl : j = 2 := by omega
      simp only [List.getElem?_cons_succ, List.getElem?_cons_zero, Option.some.injEq] at hc
      rw [← hc, h.2] at hnd
      exact absurd hnd (by decide)
  | case2 c0 c1 c2 rest h => omega
  | case3 t h => omega

/-- On `D.F` with six digits `F`, the trim loop of `FormatMoney` removes at most four trailing
zeros of `F`: two decimals always stay. -/
theorem trim_decimals (D : List Char) {F : List Char} (hF : F.length = 6) :
    ∃ G k, k ≤ 4 ∧ F = G ++ List.replicate k '0' ∧
      (if trimCount (D ++ '.' :: F).reverse ≠ 0 then
        (D ++ '.' :: F).take ((D ++ '.' :: F).length - trimCount (D ++ '.' :: F).reverse)
      else D ++ '.' :: F) = D ++ '.' :: G := by
  have hrev : (D ++ '.' :: F).reverse = F.reverse ++ '.' :: D.reverse := by simp
  have hdot : (D ++ '.' :: F).reverse[6]? = some '.' := by
    rw [hrev, List.getElem?_append_right (by simp [hF])]
    simp [hF]
  have hk := trimCount_add_two_le (by norm_num) hdot rfl
  set k := trimCount (D ++ '.' :: F).reverse with hk_def
  have hzF : F.reverse.take k = List.replicate k '0' := by
    rw [← take_trimCount, ← hk_def, hrev, List.take_append_of_le_length (by simp [hF]; omega)]
  -- the last `k` decimals are the zeros the loop counted
  have hdrop : F.drop (6 - k) = List.replicate k '0' := by
    rw [List.take_reverse, hF] at hzF
    rw [← List.reverse_replicate, ← hzF, List.reverse_reverse]
  have hsplit : F = F.take (6 - k) ++ List.replicate k '0' := by
    rw [← hdrop, List.take_append_drop]
  refine ⟨F.take (6 - k), k, by omega, hsplit, ?_⟩
  have htake : (D ++ '.' :: F).take ((D ++ '.' :: F).length - k) = D ++ '.' :: F.take (6 - k) := by
    have hs : D ++ '.' :: F = (D ++ '.' :: F.take (6 - k)) ++ List.replicate k '0' := by
      conv_lhs => rw [hsplit]
      simp
    rw [hs]
    exact List.take_left' (by simp; omega)
  split_ifs with h0
  · exact htake
  · rw [← htake, show k = 0 by omega, Nat.sub_zero, List.take_length]

/-- The loop of `ParseMoney` collects the digits before the point and reads the decimals
after it. -/
theorem parseMoneyLoop_point {D : List Char} (hD : AllDigits D) (rest : List Char) :
    ∀ acc, parseMoneyLoop acc (D ++ '.' :: rest) = some (acc ++ D, unitDigits 0 (coin / 10) rest) := by
  induction D with
  | nil => intro acc; simp [parseMoneyLoop]
  | cons d D ih =>
    intro acc
    have hd := hD d (List.mem_cons_self ..)
    have hd48 := toNat_of_isDigit hd
    have hdot : d ≠ '.' := fun h => by rw [h] at hd48; exact absurd hd48 (by decide)
    rw [List.cons_append, parseMoneyLoop, if_neg hdot, if_neg (by rw [isSpace_eq_false (by omega)]; simp),
      if_neg (by simp [hd]), ih (fun x hx => hD x (List.mem_cons_of_mem d hx)), List.append_assoc,
      List.singleton_append]

/-- The decimals loop with `nMult = 10 ^ j` reads up to `j + 1` digits as the units they
stand for. -/
theorem unitDigits_spec {G : List Char} (hG : AllDigits G) :
    ∀ (u : Int) (j : Nat), G.length ≤ j + 1 →
      unitDigits u (10 ^ j) G = (u + value G * 10 ^ (j + 1 - G.length), []) := by
  induction G with
  | nil => intro u j _; simp [unitDigits]
  | cons c cs ih =>
    intro u j hlen
    have hc := hG c (List.mem_cons_self ..)
    rw [unitDigits, if_pos ⟨hc, by positivity⟩, value_cons]
    cases j with
    | zero =>
      -- `nMult` reaches zero only after the last digit
      obtain rfl : cs = [] := by simpa using hlen
      simp [unitDigits]
    | succ k =>
      have hdiv : (10 : Int) ^ (k + 1) / 10 = 10 ^ k := by
        rw [pow_succ]
        exact Int.mul_ediv_cancel _ (by norm_num)
      have hcs : cs.length ≤ k + 1 := by simp at hlen; omega
      obtain ⟨e, he⟩ : ∃ e, k + 1 = cs.length + e := ⟨k + 1 - cs.length, by omega⟩
      rw [hdiv, ih (fun x hx => hG x (List.mem_cons_of_mem c hx)) _ k hcs, List.length_cons,
        show k + 1 + 1 - (cs.length + 1) = e by omega, show k + 1 - cs.length = e by omega, he, pow_add]
      congr 1
      push_cast
      ring

/-- On a digit string, `strtoll` is the value the digits spell. -/
theorem strtoll_digits {D : List Char} (hD : AllDigits D) (hlt : value D < 2 ^ 63) :
    strtoll D = value D := by
  have hspace : D.dropWhile isSpace = D := by
    rw [List.dropWhile_eq_self_iff]
    intro hpos
    have := toNat_of_isDigit (hD _ (List.getElem_mem hpos))
    rw [isSpace_eq_false (by omega)]
    simp
  have hdig : D.takeWhile Char.isDigit = D := List.takeWhile_eq_self_iff.mpr hD
  simp only [strtoll, hspace]
  split
  · -- a sign is not a digit
    exact absurd (hD '-' (List.mem_cons_self ..)) (by decide)
  · exact absurd (hD '+' (List.mem_cons_self ..)) (by decide)
  · dsimp only
    rw [hdig, if_neg Bool.false_ne_true]
    omega

/-! ## Reading back -/

theorem printfD_of_nonneg {i : Int} (h : 0 ≤ i) : printfD i = Nat.toDigits 10 i.natAbs := by
  simp [printfD, not_lt.mpr h]

theorem printf06d_of_nonneg {i : Int} (h : 0 ≤ i) :
    printf06d i = List.leftpad 6 '0' (Nat.toDigits 10 i.natAbs) := by
  simp [printf06d, not_lt.mpr h]

theorem length_leftpad_toDigits {r : Nat} (hr : r < 10 ^ 6) :
    (List.leftpad 6 '0' (Nat.toDigits 10 r)).length = 6 := by
  rw [List.length_leftpad, max_eq_left (length_toDigits_le (by norm_num) hr)]

theorem natAbs_emod_coin_lt (n : Int) : (n % coin).natAbs < 10 ^ 6 := by
  have h1 := Int.emod_lt_of_pos n (by decide : (0 : Int) < coin)
  have h2 := Int.emod_nonneg n (by decide : coin ≠ 0)
  simp only [coin] at h1 h2 ⊢
  omega

/-- `FormatMoney` of a non-negative amount: the whole coins, a point, and the six decimals
less at most four trailing zeros. -/
theorem formatMoney_of_nonneg {n : Int} (h : 0 ≤ n) :
    ∃ G k, k ≤ 4 ∧ List.leftpad 6 '0' (Nat.toDigits 10 (n % coin).natAbs) = G ++ List.replicate k '0' ∧
      formatMoney n = Nat.toDigits 10 (n / coin).natAbs ++ '.' :: G := by
  have habs : (if n > 0 then n else -n) = n := by split_ifs <;> omega
  have hr := natAbs_emod_coin_lt n
  obtain ⟨G, k, hk, hF, htrim⟩ :=
    trim_decimals (Nat.toDigits 10 (n / coin).natAbs) (length_leftpad_toDigits hr)
  refine ⟨G, k, hk, hF, ?_⟩
  simp only [formatMoney, habs, Int.tdiv_eq_ediv_of_nonneg h, Int.tmod_eq_emod_of_nonneg h,
    printfD_of_nonneg (Int.ediv_nonneg h (by decide : (0 : Int) ≤ coin)),
    printf06d_of_nonneg (Int.emod_nonneg n (by decide : coin ≠ 0)), if_neg (not_lt.mpr h)]
  exact htrim

/-- `ParseMoney` of digits, a point and up to six decimals. -/
theorem parseMoney_decimal {D G : List Char} (hD : AllDigits D) (hD10 : D.length ≤ 10) (hG : AllDigits G)
    (hG6 : G.length ≤ 6) : parseMoney (D ++ '.' :: G) = some (value D * coin + value G * 10 ^ (6 - G.length)) := by
  have hchars : ∀ c ∈ D ++ '.' :: G, 32 < c.toNat := by
    intro c hc
    rcases List.mem_append.mp hc with hc | hc
    · have := toNat_of_isDigit (hD c hc); omega
    · rcases List.mem_cons.mp hc with rfl | hc
      · decide
      · have := toNat_of_isDigit (hG c hc); omega
  have hvalid := validAsCString_of_forall (fun c hc => by have := hchars c hc; omega)
  have htrim : trimString (D ++ '.' :: G) spacePattern = D ++ '.' :: G :=
    trimString_of_forall (fun c hc => by rw [contains_spacePattern]; exact isSpace_eq_false (hchars c hc))
  have hunits : unitDigits 0 (coin / 10) G = ((value G : Int) * 10 ^ (6 - G.length), []) := by
    rw [show coin / 10 = 10 ^ 5 by decide, unitDigits_spec hG 0 5 (by omega), zero_add]
  have hGlt : value G * 10 ^ (6 - G.length) < 10 ^ 6 := by
    calc value G * 10 ^ (6 - G.length) < 10 ^ G.length * 10 ^ (6 - G.length) :=
          Nat.mul_lt_mul_of_pos_right (value_lt hG) (by positivity)
      _ = 10 ^ 6 := by rw [← pow_add, Nat.add_sub_cancel' hG6]
  have hDlt : value D < 2 ^ 63 := by
    have := value_lt hD
    have : 10 ^ D.length ≤ 10 ^ 10 := Nat.pow_le_pow_right (by norm_num) hD10
    omega
  have hatoi : atoi64 D = value D := strtoll_digits hD hDlt
  rw [parseMoney, if_neg (by simp [hvalid])]
  simp only [htrim, parseMoneyLoop_point hD G [], hunits, List.nil_append, Option.bind_eq_bind,
    Option.bind_some, ne_eq, not_true_eq_false, if_false]
  have hlen : ¬ D.length > 10 := by omega
  have hrange : ¬ ((value G : Int) * 10 ^ (6 - G.length) < 0 ∨ (value G : Int) * 10 ^ (6 - G.length) > coin) := by
    have : (value G : Int) * 10 ^ (6 - G.length) < 10 ^ 6 := by exact_mod_cast hGlt
    have : 0 ≤ (value G : Int) * 10 ^ (6 - G.length) := by positivity
    simp only [coin]
    omega
  rw [if_neg (by simp), if_neg hlen, if_neg hrange, hatoi]

/-- **`ParseMoney` reads back `FormatMoney`** on every non-negative amount below `10^16`. -/
theorem parseMoney_formatMoney {n : Int} (h0 : 0 ≤ n) (h : n < 10 ^ 16) :
    parseMoney (formatMoney n) = some n := by
  obtain ⟨G, k, hk, hF, hfmt⟩ := formatMoney_of_nonneg h0
  have hq : (n / coin).natAbs < 10 ^ 10 := by
    have h1 := Int.ediv_nonneg h0 (by decide : (0 : Int) ≤ coin)
    have h2 : n / coin < 10 ^ 10 := Int.ediv_lt_of_lt_mul (by decide) (by simp only [coin]; omega)
    omega
  have hr := natAbs_emod_coin_lt n
  have hlen := length_leftpad_toDigits hr
  rw [hF, List.length_append, List.length_replicate] at hlen
  have hG : AllDigits G := fun c hc =>
    allDigits_leftpad (allDigits_toDigits _) c (by rw [hF]; exact List.mem_append_left _ hc)
  rw [hfmt, parseMoney_decimal (allDigits_toDigits _) (length_toDigits_le (by norm_num) hq) hG (by omega)]
  -- the decimals kept, scaled back, are the remainder
  have hunits : value G * 10 ^ (6 - G.length) = (n % coin).natAbs := by
    calc value G * 10 ^ (6 - G.length) = value (G ++ List.replicate k '0') := by
          rw [value_append, value_replicate_zero, List.length_replicate, add_zero,
            show 6 - G.length = k by omega]
      _ = (n % coin).natAbs := by rw [← hF, value_leftpad, value_toDigits]
  have hunits' : (value G : Int) * 10 ^ (6 - G.length) = ((n % coin).natAbs : Int) := by
    exact_mod_cast hunits
  rw [value_toDigits, hunits']
  have hdm := Int.mul_ediv_add_emod n coin
  have hq0 := Int.ediv_nonneg h0 (by decide : (0 : Int) ≤ coin)
  have hr0 := Int.emod_nonneg n (by decide : coin ≠ 0)
  simp only [coin] at hdm hq0 hr0 ⊢
  -- the amount is whole coins and units again (stated over `Int`, where `omega` reads it)
  have hsum : ((n / 1000000).natAbs : Int) * 1000000 + ((n % 1000000).natAbs : Int) = n := by omega
  exact congrArg some hsum

/-- The loop of `ParseMoney` only ever adds digits to `strWhole`. -/
theorem parseMoneyLoop_allDigits {str : List Char} :
    ∀ {acc strWhole : List Char} {nUnits : Int} {rest : List Char}, AllDigits acc →
      parseMoneyLoop acc str = some (strWhole, nUnits, rest) → AllDigits strWhole := by
  induction str with
  | nil =>
    intro acc strWhole nUnits rest hacc h
    simp only [parseMoneyLoop, Option.some.injEq, Prod.mk.injEq] at h
    rw [← h.1]
    exact hacc
  | cons c cs ih =>
    intro acc strWhole nUnits rest hacc h
    rw [parseMoneyLoop] at h
    split_ifs at h with hdot hsp hnd
    · -- at the point the loop ends with what it has
      simp only [Option.some.injEq, Prod.mk.injEq] at h
      rw [← h.1]
      exact hacc
    · exact ih (hacc.append (fun x hx => by
        rw [List.mem_singleton.mp hx]
        simpa using hnd)) h

/-- **What `ParseMoney` accepts**: `strWhole` of at most ten digits and `nUnits` in `0..COIN`,
giving `atoi64(strWhole) * COIN + nUnits`. -/
theorem parseMoney_eq_some {s : List Char} {v : Int} (h : parseMoney s = some v) :
    ∃ (strWhole : List Char) (nUnits : Int), AllDigits strWhole ∧ strWhole.length ≤ 10 ∧ 0 ≤ nUnits ∧
      nUnits ≤ (coin : Int) ∧ v = atoi64 strWhole * coin + nUnits := by
  simp only [parseMoney] at h
  split_ifs at h with hvalid hempty
  rw [Option.bind_eq_bind] at h
  obtain ⟨⟨strWhole, nUnits, rest⟩, hloop, h⟩ := Option.bind_eq_some_iff.mp h
  dsimp only at h
  split_ifs at h with hrest hlen hunits
  refine ⟨strWhole, nUnits, parseMoneyLoop_allDigits (fun _ hx => absurd hx List.not_mem_nil) hloop,
    by omega, by omega, by omega, ?_⟩
  exact (Option.some.inj h).symm

/-- **No overflow in `ParseMoney`**: an accepted string gives `nWhole * COIN + nUnits` in
`0..10^16`, well inside `int64_t`. -/
theorem parseMoney_bound {s : List Char} {v : Int} (h : parseMoney s = some v) : 0 ≤ v ∧ v ≤ 10 ^ 16 := by
  obtain ⟨strWhole, nUnits, hw, hw10, hu0, hu, rfl⟩ := parseMoney_eq_some h
  have hlt : value strWhole < 10 ^ 10 :=
    lt_of_lt_of_le (value_lt hw) (Nat.pow_le_pow_right (by norm_num) hw10)
  rw [atoi64, strtoll_digits hw (by omega)]
  have hlt' : (value strWhole : Int) < 10 ^ 10 := by exact_mod_cast hlt
  simp only [coin] at hu ⊢
  constructor <;> omega

/-! ## The RPC conversions -/

/-- `UniValue::VType`. -/
inductive VType where
  | VNULL | VOBJ | VARR | VSTR | VNUM | VBOOL
  deriving DecidableEq, Repr

/-- A `UniValue` with the fields `AmountFromValue` reads. -/
structure UniValue where
  typ : VType
  val : List Char
  deriving DecidableEq, Repr

def UniValue.isNum (v : UniValue) : Bool := v.typ == .VNUM

def UniValue.isStr (v : UniValue) : Bool := v.typ == .VSTR

def UniValue.getValStr (v : UniValue) : List Char := v.val

/-- `RPC_TYPE_ERROR`. -/
def rpcTypeError : Int := -3

/-- `JSONRPCError(code, message)`, the error an RPC call throws. -/
structure JSONRPCError where
  code : Int
  message : String
  deriving DecidableEq, Repr

/-- `ValueFromAmount(amount)`. -/
def valueFromAmount (amount : CAmount) : UniValue :=
  let sign := decide (amount < 0)
  let n_abs := if sign then -amount else amount
  let quotient := n_abs.tdiv coin
  let remainder := n_abs.tmod coin
  ⟨.VNUM, (if sign then ['-'] else []) ++ printfD quotient ++ '.' :: printf06d remainder⟩

/-- `AmountFromValue(value)`: the amount, or the error it throws. -/
def amountFromValue (value : UniValue) : Except JSONRPCError CAmount :=
  if !value.isNum && !value.isStr then .error ⟨rpcTypeError, "Amount is not a number or string"⟩
  else match parseFixedPoint value.getValStr 6 with
    | none => .error ⟨rpcTypeError, "Invalid amount"⟩
    | some amount =>
      if !moneyRange amount then .error ⟨rpcTypeError, "Amount out of range"⟩
      else .ok amount

example : amountFromValue (valueFromAmount (-1234567)) = .error ⟨rpcTypeError, "Amount out of range"⟩ := by
  decide

theorem valueFromAmount_of_nonneg {n : Int} (h : 0 ≤ n) :
    valueFromAmount n = ⟨.VNUM, Nat.toDigits 10 (n / coin).natAbs ++
      '.' :: List.leftpad 6 '0' (Nat.toDigits 10 (n % coin).natAbs)⟩ := by
  have hneg : ¬ n < 0 := not_lt.mpr h
  simp only [valueFromAmount, hneg, decide_false, Bool.false_eq_true, if_false, List.nil_append,
    Int.tdiv_eq_ediv_of_nonneg h, Int.tmod_eq_emod_of_nonneg h,
    printfD_of_nonneg (Int.ediv_nonneg h (by decide : (0 : Int) ≤ coin)),
    printf06d_of_nonneg (Int.emod_nonneg n (by decide : coin ≠ 0))]

/-- The digits of the whole coins and of the six decimals spell the amount in units. -/
theorem value_amountDigits {n : Int} (h : 0 ≤ n) :
    (value (Nat.toDigits 10 (n / coin).natAbs ++ List.leftpad 6 '0' (Nat.toDigits 10 (n % coin).natAbs)) : Int) = n := by
  rw [value_append, length_leftpad_toDigits (natAbs_emod_coin_lt n), value_leftpad, value_toDigits,
    value_toDigits]
  have hdm := Int.mul_ediv_add_emod n coin
  have hq0 := Int.ediv_nonneg h (by decide : (0 : Int) ≤ coin)
  have hr0 := Int.emod_nonneg n (by decide : coin ≠ 0)
  simp only [coin] at hdm hq0 hr0 ⊢
  push_cast
  rw [abs_of_nonneg hq0, abs_of_nonneg hr0]
  omega

/-- **The RPC conversions are inverse** on the money range: `AmountFromValue` reads back what
`ValueFromAmount` writes. -/
theorem amountFromValue_valueFromAmount {n : Int} (h0 : 0 ≤ n) (hmax : n ≤ maxMoney) :
    amountFromValue (valueFromAmount n) = .ok n := by
  have hF := length_leftpad_toDigits (natAbs_emod_coin_lt n)
  have hval := value_amountDigits h0
  have hb : value (Nat.toDigits 10 (n / coin).natAbs ++
      List.leftpad 6 '0' (Nat.toDigits 10 (n % coin).natAbs)) * 10 ^ (6 - 6) < 10 ^ 18 := by
    have : n < 10 ^ 18 := lt_of_le_of_lt hmax (by decide)
    rw [Nat.sub_self, pow_zero, mul_one]
    omega
  have hparse := @parseFixedPoint_plain false (Nat.toDigits 10 (n / coin).natAbs)
    (List.leftpad 6 '0' (Nat.toDigits 10 (n % coin).natAbs)) (integerDigits_toDigits _)
    (allDigits_leftpad (allDigits_toDigits _)) (List.ne_nil_of_length_pos (by omega)) (by omega) 6
    (by omega) (by norm_num) (by rw [hF]; exact hb)
  simp only [signChars, Bool.false_eq_true, if_false, List.nil_append, hF, Nat.sub_self, pow_zero,
    mul_one, Nat.cast_ofNat, hval] at hparse
  have hrange : moneyRange n = true := (moneyRange_iff n).mpr ⟨h0, hmax⟩
  simp only [amountFromValue, valueFromAmount_of_nonneg h0, UniValue.isNum, UniValue.getValStr, hparse,
    hrange, beq_self_eq_true, Bool.not_true, Bool.false_and, Bool.false_eq_true, if_false]

/-- **Amounts round-trip through text** at `COIN = 10^6`: on the money range `ParseMoney` reads
back `FormatMoney` and `AmountFromValue` reads back `ValueFromAmount`; and whatever string
`ParseMoney` accepts, its result fits in `int64_t`. -/
theorem money_roundTrip (n : CAmount) (h0 : 0 ≤ n) (hmax : n ≤ maxMoney) :
    parseMoney (formatMoney n) = some n ∧ amountFromValue (valueFromAmount n) = .ok n ∧
      ∀ (s : List Char) (v : Int), parseMoney s = some v → -2 ^ 63 ≤ v ∧ v < 2 ^ 63 := by
  have h16 : n < 10 ^ 16 := lt_of_le_of_lt hmax (by decide)
  refine ⟨parseMoney_formatMoney h0 h16, amountFromValue_valueFromAmount h0 hmax, ?_⟩
  intro s v hv
  obtain ⟨hv0, hv16⟩ := parseMoney_bound hv
  constructor <;> omega

theorem money_roundTrip_maxMoney :
    parseMoney (formatMoney maxMoney) = some maxMoney ∧
      amountFromValue (valueFromAmount maxMoney) = .ok maxMoney ∧
      ∀ (s : List Char) (v : Int), parseMoney s = some v → -2 ^ 63 ≤ v ∧ v < 2 ^ 63 :=
  money_roundTrip maxMoney (by decide) le_rfl

end MoneyStr

end Sumcoin
