import Sumcoin.Lib.Radix
import Sumcoin.Lib.Except

/-!
# Base58: `EncodeBase58` and `DecodeBase58` in `base58.cpp`

Both directions convert in place between big-endian buffers: `DecodeBase58` multiplies a
base-256 buffer by 58 and adds each character's digit, `EncodeBase58` multiplies a base-58
buffer by 256 and adds each byte; each pass is `Radix.mulAddPass`.  Leading zero bytes and
leading `'1'`s map to each other outside the conversion.  The buffers are sized by
`n * 733 / 1000 + 1` and `n * 138 / 100 + 1`, enough by `58 ^ 1000 ≤ 256 ^ 733` and
`256 ^ 100 ≤ 58 ^ 138`, and each pass ends with `assert(carry == 0)`.

The sizes are computed in `size_t` and stored in an `int`.  A byte vector of
`3112295142` bytes sizes its buffer at `2 ^ 32`, which is `0` as an `int`, and the first
byte fails the assertion (`encodeBase58_wraps`).  While `n * 138 / 100 + 1`, the size
`EncodeBase58` computes, is below `2 ^ 31`, and for strings below `2 ^ 31` characters,
neither function fails, and the two are inverse: every byte vector is decoded back from its
encoding, and every string of base-58 characters that decodes is the encoding of what it
decodes to (`base58_roundTrip`).

Strings are their bytes, `std::string` as `List UInt8`; a failed assertion and the
`std::length_error` of a vector of negative size are errors, a `false` return is `none`.

## Main definitions

* `Base58.encodeBase58`, `Base58.decodeBase58`.
-/

namespace Sumcoin

namespace Base58

/-- `pszBase58`, as bytes. -/
def pszBase58 : List UInt8 :=
  "123456789ABCDEFGHJKLMNPQRSTUVWXYZabcdefghijkmnopqrstuvwxyz".toList.map fun c => c.toNat.toUInt8

/-- `mapBase58`: the digit of each byte, `-1` for a byte that is none. -/
def mapBase58 : List Int := [
    -1, -1, -1, -1, -1, -1, -1, -1, -1, -1, -1, -1, -1, -1, -1, -1,
    -1, -1, -1, -1, -1, -1, -1, -1, -1, -1, -1, -1, -1, -1, -1, -1,
    -1, -1, -1, -1, -1, -1, -1, -1, -1, -1, -1, -1, -1, -1, -1, -1,
    -1, 0, 1, 2, 3, 4, 5, 6, 7, 8, -1, -1, -1, -1, -1, -1,
    -1, 9, 10, 11, 12, 13, 14, 15, 16, -1, 17, 18, 19, 20, 21, -1,
    22, 23, 24, 25, 26, 27, 28, 29, 30, 31, 32, -1, -1, -1, -1, -1,
    -1, 33, 34, 35, 36, 37, 38, 39, 40, 41, 42, 43, -1, 44, 45, 46,
    47, 48, 49, 50, 51, 52, 53, 54, 55, 56, 57, -1, -1, -1, -1, -1,
    -1, -1, -1, -1, -1, -1, -1, -1, -1, -1, -1, -1, -1, -1, -1, -1,
    -1, -1, -1, -1, -1, -1, -1, -1, -1, -1, -1, -1, -1, -1, -1, -1,
    -1, -1, -1, -1, -1, -1, -1, -1, -1, -1, -1, -1, -1, -1, -1, -1,
    -1, -1, -1, -1, -1, -1, -1, -1, -1, -1, -1, -1, -1, -1, -1, -1,
    -1, -1, -1, -1, -1, -1, -1, -1, -1, -1, -1, -1, -1, -1, -1, -1,
    -1, -1, -1, -1, -1, -1, -1, -1, -1, -1, -1, -1, -1, -1, -1, -1,
    -1, -1, -1, -1, -1, -1, -1, -1, -1, -1, -1, -1, -1, -1, -1, -1,
    -1, -1, -1, -1, -1, -1, -1, -1, -1, -1, -1, -1, -1, -1, -1, -1]

/-- `mapBase58[(uint8_t)c]`. -/
def digitOf (c : UInt8) : Int := mapBase58.getD c.toNat (-1)

/-- `IsSpace(c)`. -/
def isSpace (c : UInt8) : Bool :=
  c == 0x20 || c == 0x0c || c == 0x0a || c == 0x0d || c == 0x09 || c == 0x0b

/-- `'1'`, the digit zero. -/
def one : UInt8 := 0x31

/-- The `int` a size computed in `size_t` is stored in: its low 32 bits, signed. -/
def sizeAsInt (n : Nat) : Int :=
  if n % 2 ^ 32 < 2 ^ 31 then ((n % 2 ^ 32 : Nat) : Int) else ((n % 2 ^ 32 : Nat) : Int) - 2 ^ 32

/-! ## The conversions -/

/-- The character loop of `DecodeBase58` from the buffer `b256` (big-endian) and `length`,
its digits in use: `none` where the function returns false, and otherwise the bytes from the
first space on with the buffer and `length`. -/
def decodeLoop (zeroes : Nat) (max_ret_len : Int) :
    List UInt8 → List Nat → Nat → Except String (Option (List UInt8 × List Nat × Nat))
  | [], b256, length => pure (some ([], b256, length))
  | c :: psz, b256, length =>
    if isSpace c then pure (some (c :: psz, b256, length))
    else if digitOf c = -1 then pure none
    else
      -- `b256 = b256 * 58 + carry`, from the last byte back
      let r := Radix.mulAddPass 256 58 (digitOf c).toNat 0 length b256.reverse
      if r.2.1 ≠ 0 then throw "assert(carry == 0)"
      else if ((r.2.2 + zeroes : Nat) : Int) > max_ret_len then pure none
      else decodeLoop zeroes max_ret_len psz r.1.reverse r.2.2

/-- `DecodeBase58(psz, vch, max_ret_len)` on the bytes before the terminating zero; `none`
where it returns false. -/
def decodeBase58CStr (psz : List UInt8) (max_ret_len : Int) :
    Except String (Option (List UInt8)) := do
  let psz := psz.dropWhile isSpace
  -- each leading `'1'` is a zero byte; the count is checked as it grows
  let zeroes := (psz.takeWhile (· == one)).length
  if zeroes ≠ 0 ∧ (zeroes : Int) > max_ret_len then return none
  let psz := psz.dropWhile (· == one)
  let size := sizeAsInt (psz.length * 733 / 1000 + 1)
  if size < 0 then throw "std::length_error"
  match ← decodeLoop zeroes max_ret_len psz (List.replicate size.toNat 0) 0 with
  | none => return none
  | some (rest, b256, length) =>
    if rest.dropWhile isSpace ≠ [] then return none
    return some (List.replicate zeroes 0 ++ (b256.drop (size.toNat - length)).map Nat.toUInt8)

/-- `ValidAsCString(str)`: no zero byte ends the C string early. -/
def validAsCString (str : List UInt8) : Bool := !str.contains 0

/-- `DecodeBase58(str, vchRet, max_ret_len)`. -/
def decodeBase58 (str : List UInt8) (max_ret_len : Int) : Except String (Option (List UInt8)) :=
  if validAsCString str then decodeBase58CStr str max_ret_len else pure none

/-- The byte loop of `EncodeBase58` from the buffer `b58` (big-endian) and `length`. -/
def encodeLoop : List UInt8 → List Nat → Nat → Except String (List Nat × Nat)
  | [], b58, length => pure (b58, length)
  | b :: pbegin, b58, length =>
    -- `b58 = b58 * 256 + ch`, from the last digit back
    let r := Radix.mulAddPass 58 256 b.toNat 0 length b58.reverse
    if r.2.1 ≠ 0 then throw "assert(carry == 0)"
    else encodeLoop pbegin r.1.reverse r.2.2

/-- `EncodeBase58(pbegin, pend)`. -/
def encodeBase58 (v : List UInt8) : Except String (List UInt8) := do
  let zeroes := (v.takeWhile (· == 0)).length
  let pbegin := v.dropWhile (· == 0)
  let size := sizeAsInt (pbegin.length * 138 / 100 + 1)
  if size < 0 then throw "std::length_error"
  let (b58, length) ← encodeLoop pbegin (List.replicate size.toNat 0) 0
  -- the leading zeros of the result are skipped, and the rest spelled out
  let it := (b58.drop (size.toNat - length)).dropWhile (· == 0)
  return List.replicate zeroes one ++ it.map fun d => pszBase58.getD d 0

/-! ## The table -/

theorem digitOf_pszBase58 : ∀ d < 58, digitOf (pszBase58.getD d 0) = d := by decide

theorem pszBase58_digitOf_nat : ∀ n < 256,
    digitOf n.toUInt8 ≠ -1 → pszBase58.getD (digitOf n.toUInt8).toNat 0 = n.toUInt8 := by
  decide +kernel

theorem mapBase58_range : ∀ d ∈ mapBase58, d = -1 ∨ 0 ≤ d ∧ d < 58 := by decide +kernel

theorem digitOf_range (c : UInt8) : digitOf c = -1 ∨ 0 ≤ digitOf c ∧ digitOf c < 58 := by
  rw [digitOf, List.getD_eq_getElem?_getD]
  rcases h : mapBase58[c.toNat]? with _ | d
  · exact Or.inl rfl
  · exact mapBase58_range d (List.mem_of_getElem? h)

/-- A digit character spells its digit back. -/
theorem pszBase58_digitOf {c : UInt8} (h : digitOf c ≠ -1) :
    pszBase58.getD (digitOf c).toNat 0 = c := by
  have hc : c.toNat.toUInt8 = c := UInt8.ofNat_toNat
  have := pszBase58_digitOf_nat c.toNat c.toNat_lt (by rwa [hc])
  rwa [hc] at this

theorem digitOf_of_isSpace {c : UInt8} (h : isSpace c = true) : digitOf c = -1 := by
  simp only [isSpace, Bool.or_eq_true, beq_iff_eq] at h
  rcases h with ((((h | h) | h) | h) | h) | h <;> subst h <;> decide

theorem digitOf_one : digitOf one = 0 := by decide

/-- `'1'` is the only character of the digit zero. -/
theorem eq_one_of_digitOf {c : UInt8} (h : digitOf c = 0) : c = one := by
  have := pszBase58_digitOf (c := c) (by rw [h]; decide)
  rw [h] at this
  exact this.symm

theorem toNat_digitOf_lt {c : UInt8} (hc : digitOf c ≠ -1) : (digitOf c).toNat < 58 := by
  rcases digitOf_range c with h | h
  · exact absurd h hc
  · omega

/-! ## The loops -/

/-- The number the digit characters `t` spell on top of `N`. -/
def decodeValue (N : Nat) (t : List UInt8) : Nat := t.foldl (fun N c => 58 * N + (digitOf c).toNat) N

/-- The number the bytes `v` spell on top of `M`, most significant first. -/
def encodeValue (M : Nat) (v : List UInt8) : Nat := v.foldl (fun M b => 256 * M + b.toNat) M

theorem le_decodeValue (N : Nat) (t : List UInt8) : N ≤ decodeValue N t := by
  induction t generalizing N with
  | nil => exact le_refl _
  | cons c t ih =>
    rw [decodeValue, List.foldl_cons]
    exact le_trans (by omega) (ih _)

/-- Each character read leaves the buffer the digits of the number read so far, while there
is room: `(N + 1) * 58 ^ |psz|` bounds every number still to come.  With only digit
characters left, the loop reads them all, unless the output would pass `max_ret_len`. -/
theorem decodeLoop_digits (zeroes : Nat) (max_ret_len : Int) {size : Nat} :
    ∀ (psz : List UInt8) (N : Nat), (∀ c ∈ psz, digitOf c ≠ -1) →
      (N + 1) * 58 ^ psz.length ≤ 256 ^ size →
      decodeLoop zeroes max_ret_len psz (Radix.digitsLE 256 size N).reverse
          (Nat.digits 256 N).length =
        .ok (if psz = [] ∨
            (((Nat.digits 256 (decodeValue N psz)).length + zeroes : Nat) : Int) ≤ max_ret_len
          then some ([], (Radix.digitsLE 256 size (decodeValue N psz)).reverse,
            (Nat.digits 256 (decodeValue N psz)).length)
          else none)
  | [], N, _, _ => by simp [decodeLoop, decodeValue]
  | c :: psz, N, hvalid, hroom => by
    have hc := hvalid c (List.mem_cons_self ..)
    obtain ⟨hstep, hroom'⟩ := Radix.mulAddPass_step (by omega) (toNat_digitOf_lt hc) hroom
    have hspace : isSpace c = false := by
      by_contra hsp
      exact hc (digitOf_of_isSpace (by simpa using hsp))
    have hval : decodeValue N (c :: psz) = decodeValue (58 * N + (digitOf c).toNat) psz := rfl
    rw [decodeLoop, if_neg (by simp [hspace]), if_neg hc]
    dsimp only
    rw [List.reverse_reverse, hstep]
    simp only [ne_eq, not_true_eq_false, if_false, hval, List.cons_ne_nil, false_or]
    by_cases hcheck : ((((Nat.digits 256 (58 * N + (digitOf c).toNat)).length + zeroes : Nat)) : Int) >
        max_ret_len
    case pos =>
      -- the output is already too long, and only grows
      have hmono := @Radix.length_digits_mono 256 _ _
        (le_decodeValue (58 * N + (digitOf c).toNat) psz)
      rw [if_pos hcheck, if_neg (by push_cast at hcheck ⊢; omega)]
      rfl
    case neg =>
      rw [if_neg hcheck, decodeLoop_digits zeroes max_ret_len psz _
        (fun c' hc' => hvalid c' (List.mem_cons_of_mem _ hc')) hroom']
      rcases psz with _ | ⟨c', psz'⟩
      · simp only [true_or, if_true, decodeValue, List.foldl_nil, not_lt.mp hcheck]
      · simp only [List.cons_ne_nil, false_or]

/-- With room for every character left, the loop never fails its assertion. -/
theorem decodeLoop_ok (zeroes : Nat) (max_ret_len : Int) {size : Nat} :
    ∀ (psz : List UInt8) (N : Nat), (N + 1) * 58 ^ psz.length ≤ 256 ^ size →
      ∃ r, decodeLoop zeroes max_ret_len psz (Radix.digitsLE 256 size N).reverse
        (Nat.digits 256 N).length = .ok r
  | [], N, _ => ⟨_, rfl⟩
  | c :: psz, N, hroom => by
    rw [decodeLoop]
    by_cases hsp : isSpace c
    case pos => exact ⟨_, by rw [if_pos hsp]; rfl⟩
    rw [if_neg hsp]
    by_cases hc : digitOf c = -1
    case pos => exact ⟨_, by rw [if_pos hc]; rfl⟩
    rw [if_neg hc]
    obtain ⟨hstep, hroom'⟩ := Radix.mulAddPass_step (by omega) (toNat_digitOf_lt hc) hroom
    dsimp only
    rw [List.reverse_reverse, hstep]
    simp only [ne_eq, not_true_eq_false, if_false]
    split
    case isTrue => exact ⟨_, rfl⟩
    case isFalse => exact decodeLoop_ok zeroes max_ret_len psz _ hroom'

/-- Each byte read leaves the buffer the base-58 digits of the number read so far. -/
theorem encodeLoop_digits {size : Nat} :
    ∀ (pbegin : List UInt8) (M : Nat), (M + 1) * 256 ^ pbegin.length ≤ 58 ^ size →
      encodeLoop pbegin (Radix.digitsLE 58 size M).reverse (Nat.digits 58 M).length =
        .ok ((Radix.digitsLE 58 size (encodeValue M pbegin)).reverse,
          (Nat.digits 58 (encodeValue M pbegin)).length)
  | [], M, _ => rfl
  | b :: pbegin, M, hroom => by
    obtain ⟨hstep, hroom'⟩ := Radix.mulAddPass_step (by omega) b.toNat_lt hroom
    rw [encodeLoop, List.reverse_reverse, hstep]
    simp only [ne_eq, not_true_eq_false, if_false]
    exact encodeLoop_digits pbegin _ hroom'

/-! ## The two functions -/

theorem sizeAsInt_of_lt {n : Nat} (h : n < 2 ^ 31) : sizeAsInt n = n := by
  rw [sizeAsInt, Nat.mod_eq_of_lt (by omega), if_pos h]

theorem decodeValue_eq (N : Nat) (t : List UInt8) :
    decodeValue N t =
      Nat.ofDigits 58 (t.map fun c => (digitOf c).toNat).reverse + N * 58 ^ t.length := by
  have h := Radix.foldl_mul_add 58 N (t.map fun c => (digitOf c).toNat)
  rwa [List.foldl_map, List.length_map] at h

theorem encodeValue_eq (M : Nat) (v : List UInt8) :
    encodeValue M v = Nat.ofDigits 256 (v.map UInt8.toNat).reverse + M * 256 ^ v.length := by
  have h := Radix.foldl_mul_add 256 M (v.map UInt8.toNat)
  rwa [List.foldl_map, List.length_map] at h

/-- `n` base-58 digits fit in the `n * 733 / 1000 + 1` bytes `DecodeBase58` allocates. -/
theorem pow58_lt (n : Nat) : 58 ^ n < 256 ^ (n * 733 / 1000 + 1) :=
  Radix.pow_lt_pow_div_add_one (by decide +kernel) (by decide) (by decide) n

/-- `n` bytes fit in the `n * 138 / 100 + 1` base-58 digits `EncodeBase58` allocates. -/
theorem pow256_lt (n : Nat) : 256 ^ n < 58 ^ (n * 138 / 100 + 1) :=
  Radix.pow_lt_pow_div_add_one (by decide) (by decide) (by decide) n

/-- `EncodeBase58` while its `int` size holds: a `'1'` for each leading zero byte, then the
base-58 digits of the rest, most significant first. -/
theorem encodeBase58_eq {v : List UInt8} (hv : v.length * 138 / 100 + 1 < 2 ^ 31) :
    encodeBase58 v = .ok (List.replicate (v.takeWhile (· == 0)).length one ++
      (Nat.digits 58 (encodeValue 0 (v.dropWhile (· == 0)))).reverse.map
        fun d => pszBase58.getD d 0) := by
  have hn : (v.dropWhile (· == 0)).length ≤ v.length := (List.dropWhile_suffix _).length_le
  have hsize := sizeAsInt_of_lt (n := (v.dropWhile (· == 0)).length * 138 / 100 + 1) (by omega)
  have hroom := pow256_lt (v.dropWhile (· == 0)).length
  have hM : encodeValue 0 (v.dropWhile (· == 0)) <
      58 ^ ((v.dropWhile (· == 0)).length * 138 / 100 + 1) := by
    rw [encodeValue_eq, Nat.zero_mul, Nat.add_zero]
    refine lt_of_lt_of_le (Nat.ofDigits_lt_base_pow_length (by norm_num) ?_) ?_
    · simpa using fun a _ => UInt8.toNat_lt a
    · simpa using hroom.le
  have hloop := encodeLoop_digits (v.dropWhile (· == 0)) 0 (by simpa using hroom.le)
  rw [Radix.digitsLE_zero, List.reverse_replicate, Nat.digits_zero, List.length_nil] at hloop
  simp only [encodeBase58, hsize, Int.natCast_nonneg, not_lt.mpr, if_false, Int.toNat_natCast,
    hloop, Except.ok_bind,
    Radix.drop_reverse_digitsLE (by norm_num) hM, Radix.dropWhile_reverse_digits]
  rfl

theorem decodeValue_lt {t : List UInt8} (ht : ∀ c ∈ t, digitOf c ≠ -1) :
    decodeValue 0 t < 58 ^ t.length := by
  rw [decodeValue_eq, Nat.zero_mul, Nat.add_zero]
  refine lt_of_lt_of_le (Nat.ofDigits_lt_base_pow_length (by norm_num) ?_) (by simp)
  simpa using fun c hc => toNat_digitOf_lt (ht c hc)

theorem encodeValue_lt (p : List UInt8) : encodeValue 0 p < 256 ^ p.length := by
  rw [encodeValue_eq, Nat.zero_mul, Nat.add_zero]
  refine lt_of_lt_of_le (Nat.ofDigits_lt_base_pow_length (by norm_num) ?_) (by simp)
  simpa using fun b _ => b.toNat_lt

/-- `DecodeBase58` on digit characters whose digits after the leading `'1'`s number below
`2 ^ 31`: a zero byte for each leading `'1'`, then the bytes of the number the rest spells,
unless either part passes `max_ret_len`. -/
theorem decodeBase58_eq {s : List UInt8} (max_ret_len : Int) (hvalid : ∀ c ∈ s, digitOf c ≠ -1)
    (hlen : (s.dropWhile (· == one)).length < 2 ^ 31) :
    decodeBase58 s max_ret_len =
      .ok (if ¬ ((s.takeWhile (· == one)).length ≠ 0 ∧
            ((s.takeWhile (· == one)).length : Int) > max_ret_len) ∧
          (s.dropWhile (· == one) = [] ∨
            (((Nat.digits 256 (decodeValue 0 (s.dropWhile (· == one)))).length +
              (s.takeWhile (· == one)).length : Nat) : Int) ≤ max_ret_len)
        then some (List.replicate (s.takeWhile (· == one)).length 0 ++
          (Nat.digits 256 (decodeValue 0 (s.dropWhile (· == one)))).reverse.map Nat.toUInt8)
        else none) := by
  -- no character is a space or the terminating zero
  have hcstr : validAsCString s = true := by
    have h0 : (0 : UInt8) ∉ s := fun h0 => hvalid 0 h0 (by decide)
    simpa [validAsCString] using h0
  have hspace : s.dropWhile isSpace = s := by
    rcases s with _ | ⟨c, s'⟩
    · rfl
    · rw [List.dropWhile_cons_of_neg]
      intro hsp
      exact hvalid c (List.mem_cons_self ..) (digitOf_of_isSpace (by simpa using hsp))
  have htvalid : ∀ c ∈ s.dropWhile (· == one), digitOf c ≠ -1 :=
    fun c hc => hvalid c ((List.dropWhile_suffix _).subset hc)
  rw [decodeBase58, if_pos hcstr, decodeBase58CStr]
  simp only [hspace]
  generalize s.takeWhile (· == one) = z
  generalize s.dropWhile (· == one) = t at hlen htvalid ⊢
  have hsize := sizeAsInt_of_lt (n := t.length * 733 / 1000 + 1) (by omega)
  have hroom := pow58_lt t.length
  have hN : decodeValue 0 t < 256 ^ (t.length * 733 / 1000 + 1) :=
    lt_trans (decodeValue_lt htvalid) hroom
  have hloop := decodeLoop_digits z.length max_ret_len t 0 htvalid (by simpa using hroom.le)
  rw [Radix.digitsLE_zero, List.reverse_replicate, Nat.digits_zero, List.length_nil] at hloop
  simp only [hsize, Int.natCast_nonneg, not_lt.mpr, if_false, Int.toNat_natCast, hloop]
  by_cases hzero : z.length ≠ 0 ∧ (z.length : Int) > max_ret_len
  case pos =>
    rw [if_pos hzero, if_neg (fun h => h.1 hzero)]
    rfl
  case neg =>
    rw [if_neg hzero, Except.ok_bind]
    by_cases hout : t = [] ∨
        (((Nat.digits 256 (decodeValue 0 t)).length + z.length : Nat) : Int) ≤ max_ret_len
    case pos =>
      -- the loop read every character, and the buffer's top digits are the output
      rw [if_pos hout, if_pos ⟨hzero, hout⟩]
      simp only [List.dropWhile_nil, ne_eq, not_true_eq_false, if_false,
        Radix.drop_reverse_digitsLE (by norm_num) hN]
      rfl
    case neg =>
      rw [if_neg hout, if_neg (fun h => hout h.2)]
      rfl

/-- Below `2 ^ 31` bytes `DecodeBase58` returns, true or false, on every input: no
assertion fails. -/
theorem decodeBase58_ok (s : List UInt8) (max_ret_len : Int) (hs : s.length < 2 ^ 31) :
    ∃ r, decodeBase58 s max_ret_len = .ok r := by
  rw [decodeBase58]
  by_cases hcstr : validAsCString s = true
  case neg => exact ⟨_, by rw [if_neg hcstr]; rfl⟩
  rw [if_pos hcstr, decodeBase58CStr]
  have hsuf : (s.dropWhile isSpace).dropWhile (· == one) <:+ s :=
    (List.dropWhile_suffix _).trans (List.dropWhile_suffix _)
  generalize (s.dropWhile isSpace).takeWhile (· == one) = z
  generalize (s.dropWhile isSpace).dropWhile (· == one) = t at hsuf ⊢
  have hsize := sizeAsInt_of_lt (n := t.length * 733 / 1000 + 1) (by have := hsuf.length_le; omega)
  obtain ⟨r, hr⟩ := decodeLoop_ok z.length max_ret_len t 0 (by simpa using (pow58_lt t.length).le)
  rw [Radix.digitsLE_zero, List.reverse_replicate, Nat.digits_zero, List.length_nil] at hr
  simp only [hsize, Int.natCast_nonneg, not_lt.mpr, if_false, Int.toNat_natCast, hr,
    Except.ok_bind]
  split
  case isTrue => exact ⟨_, rfl⟩
  case isFalse =>
    rcases r with _ | ⟨rest, b256, length⟩
    · exact ⟨_, rfl⟩
    · dsimp only
      split <;> exact ⟨_, rfl⟩

/-! ## The round trip -/

section Runs
variable {a : UInt8}

/-- A run of `a`s ahead of a list that does not start with `a`. -/
theorem takeWhile_replicate_append (z : Nat) {t : List UInt8} (ht : t.head? ≠ some a) :
    (List.replicate z a ++ t).takeWhile (· == a) = List.replicate z a := by
  induction z with
  | zero =>
    rcases t with _ | ⟨c, t⟩
    · rfl
    · rw [List.replicate_zero, List.nil_append, List.takeWhile_cons_of_neg (by simpa using ht)]
  | succ z ih => rw [List.replicate_succ, List.cons_append, List.takeWhile_cons_of_pos (by simp), ih]

theorem dropWhile_replicate_append (z : Nat) {t : List UInt8} (ht : t.head? ≠ some a) :
    (List.replicate z a ++ t).dropWhile (· == a) = t := by
  induction z with
  | zero =>
    rcases t with _ | ⟨c, t⟩
    · rfl
    · rw [List.replicate_zero, List.nil_append, List.dropWhile_cons_of_neg (by simpa using ht)]
  | succ z ih => rw [List.replicate_succ, List.cons_append, List.dropWhile_cons_of_pos (by simp), ih]

/-- A list is its run of leading `a`s and the rest. -/
theorem replicate_append_dropWhile (l : List UInt8) :
    List.replicate (l.takeWhile (· == a)).length a ++ l.dropWhile (· == a) = l := by
  conv_rhs => rw [← List.takeWhile_append_dropWhile (p := (· == a)) (l := l)]
  congr 1
  exact (List.eq_replicate_iff.mpr ⟨rfl, fun b hb => by simpa using List.mem_takeWhile_imp hb⟩).symm

theorem head?_dropWhile_ne (l : List UInt8) : (l.dropWhile (· == a)).head? ≠ some a := by
  intro h
  have hne : l.dropWhile (· == a) ≠ [] := by simp [← List.head?_eq_none_iff, h]
  have := List.head_dropWhile_not (· == a) (l := l) hne
  rw [List.head?_eq_some_head hne, Option.some_inj] at h
  simp_all

end Runs

/-- The bytes of `N`, most significant first, spell `N` back and do not start with zero. -/
theorem encodeValue_bytes (N : Nat) :
    encodeValue 0 ((Nat.digits 256 N).reverse.map Nat.toUInt8) = N ∧
      ((Nat.digits 256 N).reverse.map Nat.toUInt8).head? ≠ some 0 := by
  have hlt : ∀ d ∈ Nat.digits 256 N, d < 256 := fun d hd => Nat.digits_lt_base (by norm_num) hd
  have hmap : ((Nat.digits 256 N).reverse.map Nat.toUInt8).map UInt8.toNat =
      (Nat.digits 256 N).reverse := by
    rw [List.map_map]
    conv_rhs => rw [← List.map_id (Nat.digits 256 N).reverse]
    exact List.map_congr_left fun d hd => by simpa using hlt d (List.mem_reverse.mp hd)
  constructor
  · rw [encodeValue_eq, hmap, List.reverse_reverse, Nat.zero_mul, Nat.add_zero, Nat.ofDigits_digits]
  · intro h
    have h' := congrArg (Option.map UInt8.toNat) h
    rw [← List.head?_map, hmap] at h'
    exact Radix.head?_reverse_digits_ne_zero 256 N h'

/-- Bytes with no leading zero are the bytes of the number they spell. -/
theorem bytes_encodeValue {p : List UInt8} (hp : p.head? ≠ some 0) :
    (Nat.digits 256 (encodeValue 0 p)).reverse.map Nat.toUInt8 = p := by
  have hD : ∀ d ∈ p.map UInt8.toNat, d < 256 := by
    simpa using fun b _ => b.toNat_lt
  have hhead : ∀ h : p.map UInt8.toNat ≠ [], (p.map UInt8.toNat).head h ≠ 0 := by
    rcases p with _ | ⟨b, p⟩
    · simp
    · intro _ hb
      exact hp (by simpa [← UInt8.toNat_inj] using hb)
  rw [encodeValue_eq, Nat.zero_mul, Nat.add_zero,
    Radix.digits_ofDigits_reverse (by norm_num) hD hhead, List.map_map]
  conv_rhs => rw [← List.map_id p]
  exact List.map_congr_left fun b _ => UInt8.ofNat_toNat

/-- The digit characters of `M`, most significant first, are digits, spell `M` back and do
not start with `'1'`. -/
theorem decodeValue_chars (M : Nat) :
    (∀ c ∈ (Nat.digits 58 M).reverse.map (fun d => pszBase58.getD d 0), digitOf c ≠ -1) ∧
      decodeValue 0 ((Nat.digits 58 M).reverse.map fun d => pszBase58.getD d 0) = M ∧
      ((Nat.digits 58 M).reverse.map fun d => pszBase58.getD d 0).head? ≠ some one := by
  have hlt : ∀ d ∈ (Nat.digits 58 M).reverse, d < 58 :=
    fun d hd => Nat.digits_lt_base (by norm_num) (List.mem_reverse.mp hd)
  have hmap : ((Nat.digits 58 M).reverse.map fun d => pszBase58.getD d 0).map
      (fun c => (digitOf c).toNat) = (Nat.digits 58 M).reverse := by
    rw [List.map_map]
    conv_rhs => rw [← List.map_id (Nat.digits 58 M).reverse]
    exact List.map_congr_left fun d hd => by
      simp only [Function.comp_apply, id, digitOf_pszBase58 d (hlt d hd), Int.toNat_natCast]
  refine ⟨?valid, ?value, ?head⟩
  case valid =>
    simp only [List.mem_map]
    rintro _ ⟨d, hd, rfl⟩
    rw [digitOf_pszBase58 d (hlt d hd)]
    omega
  case value =>
    rw [decodeValue_eq, hmap, List.reverse_reverse, Nat.zero_mul, Nat.add_zero,
      Nat.ofDigits_digits]
  case head =>
    intro h
    have h' := congrArg (Option.map fun c => (digitOf c).toNat) h
    rw [← List.head?_map, hmap] at h'
    simp only [Option.map_some, digitOf_one, Int.toNat_zero] at h'
    exact Radix.head?_reverse_digits_ne_zero 58 M h'

/-- Digit characters not starting with `'1'` are the characters of the number they spell. -/
theorem chars_decodeValue {t : List UInt8} (ht : ∀ c ∈ t, digitOf c ≠ -1)
    (hhead : t.head? ≠ some one) :
    (Nat.digits 58 (decodeValue 0 t)).reverse.map (fun d => pszBase58.getD d 0) = t := by
  have hD : ∀ d ∈ t.map fun c => (digitOf c).toNat, d < 58 := by
    simpa using fun c hc => toNat_digitOf_lt (ht c hc)
  have hnz : ∀ h : (t.map fun c => (digitOf c).toNat) ≠ [],
      (t.map fun c => (digitOf c).toNat).head h ≠ 0 := by
    rcases t with _ | ⟨c, t⟩
    · simp
    · intro _ hc
      have hc0 : digitOf c = 0 := by
        rcases digitOf_range c with h | h
        · exact absurd h (ht c (List.mem_cons_self ..))
        · simp only [List.map_cons, List.head_cons] at hc
          omega
      exact hhead (by rw [eq_one_of_digitOf hc0]; rfl)
  rw [decodeValue_eq, Nat.zero_mul, Nat.add_zero,
    Radix.digits_ofDigits_reverse (by norm_num) hD hnz, List.map_map]
  conv_rhs => rw [← List.map_id t]
  exact List.map_congr_left fun c hc => pszBase58_digitOf (ht c hc)

/-- `DecodeBase58` reads back what `EncodeBase58` writes, given room for every byte. -/
theorem decode_encodeBase58 {v s : List UInt8} (max_ret_len : Int)
    (hv : v.length * 138 / 100 + 1 < 2 ^ 31)
    (hm : (v.length : Int) ≤ max_ret_len) (hs : encodeBase58 v = .ok s) :
    decodeBase58 s max_ret_len = .ok (some v) := by
  rw [encodeBase58_eq hv, Except.ok.injEq] at hs
  subst hs
  obtain ⟨hvalid, hvalue, hhead⟩ := decodeValue_chars (encodeValue 0 (v.dropWhile (· == 0)))
  -- the bytes after the leading zeros need no more base-256 digits than they have, and no
  -- more base-58 digits than `EncodeBase58` allocates
  have hp := encodeValue_lt (v.dropWhile (· == 0))
  have hL256 := (Nat.digits_length_le_iff (by norm_num) _).mpr hp
  have hL58 := (Nat.digits_length_le_iff (by norm_num) _).mpr (hp.trans (pow256_lt _))
  have hsuf : (v.dropWhile (· == 0)).length ≤ v.length := (List.dropWhile_suffix _).length_le
  have hzp : (v.takeWhile (· == 0)).length + (v.dropWhile (· == 0)).length = v.length := by
    simpa using congrArg List.length (replicate_append_dropWhile (a := 0) v)
  have hchars : ∀ c ∈ List.replicate (v.takeWhile (· == 0)).length one ++
      (Nat.digits 58 (encodeValue 0 (v.dropWhile (· == 0)))).reverse.map
        (fun d => pszBase58.getD d 0), digitOf c ≠ -1 := by
    intro c hc
    rcases List.mem_append.mp hc with hc | hc
    · rw [List.eq_of_mem_replicate hc, digitOf_one]
      decide
    · exact hvalid c hc
  rw [decodeBase58_eq max_ret_len hchars (by simp only [dropWhile_replicate_append _ hhead,
      List.length_map, List.length_reverse]; omega),
    takeWhile_replicate_append _ hhead, dropWhile_replicate_append _ hhead,
    List.length_replicate, hvalue, bytes_encodeValue (head?_dropWhile_ne v),
    replicate_append_dropWhile, if_pos]
  constructor
  · omega
  · right
    omega

/-- `EncodeBase58` writes back the digit characters `DecodeBase58` accepted. -/
theorem encode_decodeBase58 {s out : List UInt8} (max_ret_len : Int)
    (hs : s.length * 138 / 100 + 1 < 2 ^ 31)
    (hvalid : ∀ c ∈ s, digitOf c ≠ -1) (hdec : decodeBase58 s max_ret_len = .ok (some out)) :
    encodeBase58 out = .ok s := by
  have htvalid : ∀ c ∈ s.dropWhile (· == one), digitOf c ≠ -1 :=
    fun c hc => hvalid c ((List.dropWhile_suffix _).subset hc)
  have hzt : (s.takeWhile (· == one)).length + (s.dropWhile (· == one)).length = s.length := by
    simpa using congrArg List.length (replicate_append_dropWhile (a := one) s)
  rw [decodeBase58_eq max_ret_len hvalid (by omega)] at hdec
  have hout : List.replicate (s.takeWhile (· == one)).length 0 ++
      (Nat.digits 256 (decodeValue 0 (s.dropWhile (· == one)))).reverse.map Nat.toUInt8 = out := by
    split at hdec
    case isTrue => exact Option.some.inj (Except.ok.inj hdec)
    case isFalse => cases hdec
  subst hout
  obtain ⟨hvalue, hhead⟩ := encodeValue_bytes (decodeValue 0 (s.dropWhile (· == one)))
  -- the decoded number has no more bytes than the rest has characters
  have hL := (Nat.digits_length_le_iff (by norm_num) _).mpr
    ((decodeValue_lt htvalid).trans_le (Nat.pow_le_pow_left (by norm_num : 58 ≤ 256) _))
  rw [encodeBase58_eq (by simp only [List.length_append, List.length_replicate, List.length_map,
      List.length_reverse]; omega),
    takeWhile_replicate_append _ hhead, dropWhile_replicate_append _ hhead,
    List.length_replicate, hvalue, chars_decodeValue htvalid (head?_dropWhile_ne s),
    replicate_append_dropWhile]

/-- Base58 round trips on byte vectors and strings whose length `n` keeps the `int` size
`n * 138 / 100 + 1` of `EncodeBase58` below `2 ^ 31`, and `DecodeBase58` asserts nothing
below `2 ^ 31` characters. -/
theorem base58_roundTrip :
    (∀ (v : List UInt8) (max_ret_len : Int), v.length * 138 / 100 + 1 < 2 ^ 31 →
      (v.length : Int) ≤ max_ret_len →
      ∃ s, encodeBase58 v = .ok s ∧ decodeBase58 s max_ret_len = .ok (some v)) ∧
    (∀ (s : List UInt8) (max_ret_len : Int) (out : List UInt8), s.length * 138 / 100 + 1 < 2 ^ 31 →
      (∀ c ∈ s, digitOf c ≠ -1) → decodeBase58 s max_ret_len = .ok (some out) →
      encodeBase58 out = .ok s) ∧
    (∀ (s : List UInt8) (max_ret_len : Int), s.length < 2 ^ 31 →
      ∃ r, decodeBase58 s max_ret_len = .ok r) := by
  refine ⟨?encodeDecode, ?decodeEncode, decodeBase58_ok⟩
  case encodeDecode =>
    intro v max_ret_len hv hm
    exact ⟨_, encodeBase58_eq hv, decode_encodeBase58 max_ret_len hv hm (encodeBase58_eq hv)⟩
  case decodeEncode =>
    intro s max_ret_len out hs hvalid hdec
    exact encode_decodeBase58 max_ret_len hs hvalid hdec

theorem base58_roundTrip_zeros :
    ∃ s, encodeBase58 [0, 0, 1] = .ok s ∧ decodeBase58 s 3 = .ok (some [0, 0, 1]) :=
  base58_roundTrip.1 [0, 0, 1] 3 (by decide) (by decide)

/-- Above `2 ^ 32 / 1.38` bytes the `int` size of the base-58 buffer wraps: at
`3112295142` bytes it is `0`, and the first byte's carry has nowhere to go. -/
theorem encodeBase58_wraps :
    encodeBase58 (List.replicate 3112295142 1) = .error "assert(carry == 0)" := by
  have hv : List.replicate 3112295142 (1 : UInt8) = 1 :: List.replicate 3112295141 1 :=
    List.replicate_succ ..
  have hsize : sizeAsInt ((1 :: List.replicate 3112295141 (1 : UInt8)).length * 138 / 100 + 1) = 0 := by
    rw [List.length_cons, List.length_replicate]
    decide
  rw [encodeBase58, hv, List.takeWhile_cons_of_neg (by decide),
    List.dropWhile_cons_of_neg (by decide), hsize]
  rfl

end Base58

end Sumcoin
