import Sumcoin.Script.Script
import Sumcoin.Primitives.VarInt

/-!
# Script numbers: `CScriptNum` in `script/script.h`

A script number is little-endian sign-magnitude: the magnitude's bytes, least
significant first, with the sign in the top bit of the last byte, and an extra `0x00`
or `0x80` byte when the magnitude's own top byte has that bit set.  `serialize` writes
the shortest such vector; the constructor from bytes refuses a vector longer than
`nMaxNumSize`, and under `fRequireMinimal` one whose last byte is zero apart from the
sign bit unless the byte below it needs that bit (`0xff 0x00` is 255), and then reads the
value with `set_vch`.

`set_vch` ORs the bytes into an `int64_t`, each shifted by eight times its index, and for
a negative number clears the sign bit with the mask `~(0x80ULL << (8 * (size - 1)))`.
The model keeps the `int64_t` as its 64 bits and reads them as two's complement; a byte
past the eighth, whose shift C++ leaves undefined, adds nothing here.  The theorems below
assume at most eight bytes, so no such byte is read.

The value of a vector is given by Mathlib's `Nat.ofDigits 256` (`signMagnitude`) and the
magnitude bytes of `serialize` by `Nat.digits 256` (`absBytes_eq_digits`).  The round
trip is `scriptNum_roundTrip`: every `int64_t` but `INT64_MIN` comes back from its
serialization under the minimality check at eight bytes, and every vector of at most
eight bytes that passes the check is the serialization of its value.

## Main definitions

* `Script.setVchLoop`, `Script.scriptNumSetVch`: `set_vch`.
* `Script.minimallyEncoded`, `Script.scriptNumOfVch`: `CScriptNum(vch, fRequireMinimal,
  nMaxNumSize)`.
* `Script.signMagnitude`: the value of a sign-magnitude vector.
-/

namespace Sumcoin

namespace Script

/-- `set_vch`'s loop: `result |= static_cast<int64_t>(vch[i]) << 8 * i` from byte `i` on,
the `int64_t` kept as its 64 bits. -/
def setVchLoop : List UInt8 → Nat → Nat → Nat
  | [], _, result => result
  | b :: bs, i, result => setVchLoop bs (i + 1) (result ||| (b.toNat <<< (8 * i)) % 2 ^ 64)

/-- The `int64_t` whose two's-complement bits are `x`. -/
def int64OfBits (x : Nat) : Int := if x < 2 ^ 63 then x else (x : Int) - 2 ^ 64

/-- `CScriptNum::set_vch(vch)`. -/
def scriptNumSetVch (vch : List UInt8) : Int :=
  if vch = [] then 0
  else
    let result := setVchLoop vch 0 0
    -- `~(0x80ULL << (8 * (vch.size() - 1)))`: every bit but the sign bit of the last byte
    let mask := (2 ^ 64 - 1) ^^^ ((0x80 <<< (8 * (vch.length - 1))) % 2 ^ 64)
    if vch.getLast?.getD 0 &&& 0x80 ≠ 0 then -int64OfBits (result &&& mask)
    else int64OfBits result

/-- The `fRequireMinimal` test of `CScriptNum(vch, fRequireMinimal, nMaxNumSize)`: a last
byte of zero, sign bit aside, only when the byte below it has its top bit set. -/
def minimallyEncoded (vch : List UInt8) : Bool :=
  match vch.getLast? with
  | none => true
  | some last =>
    !(last &&& 0x7f == 0 && (decide (vch.length ≤ 1) || vch.getD (vch.length - 2) 0 &&& 0x80 == 0))

/-- `CScriptNum(vch, fRequireMinimal, nMaxNumSize)`: the value, or the message of the
`scriptnum_error` it throws. -/
def scriptNumOfVch (vch : List UInt8) (fRequireMinimal : Bool) (nMaxNumSize : Nat) :
    Except String Int :=
  if vch.length > nMaxNumSize then .error "script number overflow"
  else if fRequireMinimal && !minimallyEncoded vch then
    .error "non-minimally encoded script number"
  else .ok (scriptNumSetVch vch)

/-- The value of the sign-magnitude vector `init ++ [last]`: the little-endian magnitude
with the sign bit of `last` cleared, negative when that bit is set. -/
def signMagnitude (init : List UInt8) (last : UInt8) : Int :=
  let m : Nat := Nat.ofDigits 256 (init.map UInt8.toNat) + 256 ^ init.length * (last &&& 0x7f).toNat
  if last &&& 0x80 ≠ 0 then -(m : Int) else m

/-! ## `set_vch` -/

theorem ofDigits_map_toNat_lt (l : List UInt8) :
    Nat.ofDigits 256 (l.map UInt8.toNat) < 256 ^ l.length := by
  have h := Nat.ofDigits_lt_base_pow_length (b := 256) (l := l.map UInt8.toNat) (by decide)
    (by
      intro x hx
      obtain ⟨b, -, rfl⟩ := List.mem_map.mp hx
      exact b.toNat_lt)
  rwa [List.length_map] at h

/-- **The loop of `set_vch` is the little-endian value**: the bytes written so far sit
below bit `8 i`, so each OR adds its byte, and within eight bytes nothing is cut. -/
theorem setVchLoop_eq (vch : List UInt8) (i result : Nat) (hres : result < 2 ^ (8 * i))
    (hlen : i + vch.length ≤ 8) :
    setVchLoop vch i result = result + 2 ^ (8 * i) * Nat.ofDigits 256 (vch.map UInt8.toNat) := by
  induction vch generalizing i result with
  | nil => simp [setVchLoop]
  | cons b bs ih =>
    simp only [List.length_cons] at hlen
    have hb := b.toNat_lt
    -- the shifted byte stays below bit 64 and above everything written so far
    have hshift : (b.toNat <<< (8 * i)) % 2 ^ 64 = 2 ^ (8 * i) * b.toNat := by
      rw [Nat.shiftLeft_eq, Nat.mul_comm]
      apply Nat.mod_eq_of_lt
      calc 2 ^ (8 * i) * b.toNat < 2 ^ (8 * i) * 2 ^ 8 := by
            exact Nat.mul_lt_mul_of_pos_left hb (Nat.two_pow_pos _)
        _ = 2 ^ (8 * i + 8) := by rw [Nat.pow_add]
        _ ≤ 2 ^ 64 := Nat.pow_le_pow_right (by decide) (by omega)
    have hor : result ||| 2 ^ (8 * i) * b.toNat = result + 2 ^ (8 * i) * b.toNat := by
      rw [Nat.or_comm, ← Nat.two_pow_add_eq_or_of_lt hres, Nat.add_comm]
    have hres' : result + 2 ^ (8 * i) * b.toNat < 2 ^ (8 * (i + 1)) := by
      calc result + 2 ^ (8 * i) * b.toNat < 2 ^ (8 * i) + 2 ^ (8 * i) * b.toNat := by omega
        _ = 2 ^ (8 * i) * (b.toNat + 1) := by ring
        _ ≤ 2 ^ (8 * i) * 2 ^ 8 := Nat.mul_le_mul_left _ hb
        _ = 2 ^ (8 * (i + 1)) := by rw [← Nat.pow_add, Nat.mul_succ]
    rw [setVchLoop, hshift, hor, ih (i + 1) _ hres' (by omega)]
    simp only [List.map_cons, Nat.ofDigits_cons]
    rw [show 2 ^ (8 * (i + 1)) = 2 ^ (8 * i) * 256 by rw [Nat.mul_add, Nat.pow_add]]
    ring

/-- Clearing a set bit `j` with the complement of `2^j`. -/
theorem add_two_pow_and_mask {u j : Nat} (hu : u < 2 ^ j) (hj : j < 64) :
    (2 ^ j + u) &&& ((2 ^ 64 - 1) ^^^ 2 ^ j) = u := by
  apply Nat.eq_of_testBit_eq
  intro i
  rw [Nat.testBit_and, Nat.testBit_xor, Nat.testBit_two_pow_sub_one, Nat.testBit_two_pow]
  rcases Nat.lt_trichotomy i j with hij | rfl | hji
  · -- below the cleared bit the mask is all ones
    rw [Nat.testBit_two_pow_add_gt hij]
    simp [show i < 64 by omega, show j ≠ i by omega]
  · simp [Nat.testBit_lt_two_pow hu, hj]
  · -- above it `u` has no bits
    have hui : u.testBit i = false := Nat.testBit_lt_two_pow (Nat.lt_trans hu
      (Nat.pow_lt_pow_right (by decide) hji))
    have hsum : (2 ^ j + u).testBit i = false :=
      Nat.testBit_lt_two_pow (by
        calc 2 ^ j + u < 2 ^ j + 2 ^ j := by omega
          _ = 2 ^ (j + 1) := by rw [Nat.pow_succ]; ring
          _ ≤ 2 ^ i := Nat.pow_le_pow_right (by decide) hji)
    rw [hsum, hui, Bool.false_and]

theorem int64OfBits_of_lt {x : Nat} (h : x < 2 ^ 63) : int64OfBits x = x := by
  rw [int64OfBits, if_pos h]

/-- **`set_vch` reads the sign-magnitude value** of a vector of at most eight bytes. -/
theorem scriptNumSetVch_concat (init : List UInt8) (last : UInt8) (h : init.length < 8) :
    scriptNumSetVch (init ++ [last]) = signMagnitude init last := by
  have hlo := ofDigits_map_toNat_lt init
  have hl7 : (last &&& 0x7f).toNat = last.toNat % 128 := toNat_and_7f last
  have hlast := last.toNat_lt
  have hk : 256 ^ init.length = 2 ^ (8 * init.length) := by rw [Nat.pow_mul]
  -- the loop reads `lo + 256^k * last`
  have hresult : setVchLoop (init ++ [last]) 0 0 =
      Nat.ofDigits 256 (init.map UInt8.toNat) + 256 ^ init.length * last.toNat := by
    rw [setVchLoop_eq _ 0 0 (by decide) (by simp only [List.length_append, List.length_singleton]; omega)]
    simp [Nat.ofDigits_append]
  have hsmall : 256 ^ init.length * 128 ≤ 2 ^ 63 := by
    rw [hk, show 128 = 2 ^ 7 from rfl, ← Nat.pow_add]
    exact Nat.pow_le_pow_right (by decide) (by omega)
  unfold scriptNumSetVch signMagnitude
  rw [if_neg (by simp), List.getLast?_concat, Option.getD_some]
  dsimp only
  rw [hresult, hl7]
  by_cases hsign : last &&& 0x80 ≠ 0
  case pos =>
    have h128 := (and_80_ne_zero_iff last).mp hsign
    rw [if_pos hsign, if_pos hsign]
    -- the sign bit is bit `8 k + 7` of the loop's result, and the mask clears just it
    have hmask : (0x80 <<< (8 * ((init ++ [last]).length - 1))) % 2 ^ 64 =
        2 ^ (8 * init.length + 7) := by
      rw [List.length_append, List.length_singleton, Nat.add_sub_cancel, Nat.shiftLeft_eq,
        show (0x80 : Nat) = 2 ^ 7 from rfl, ← Nat.pow_add, Nat.add_comm 7]
      exact Nat.mod_eq_of_lt (Nat.pow_lt_pow_right (by decide) (by omega))
    have hsplit : Nat.ofDigits 256 (init.map UInt8.toNat) + 256 ^ init.length * last.toNat =
        2 ^ (8 * init.length + 7) +
          (Nat.ofDigits 256 (init.map UInt8.toNat) + 256 ^ init.length * (last.toNat % 128)) := by
      rw [Nat.pow_add, ← hk]
      have : last.toNat = last.toNat % 128 + 128 := by omega
      conv_lhs => rw [this]
      ring
    have hu : Nat.ofDigits 256 (init.map UInt8.toNat) + 256 ^ init.length * (last.toNat % 128) <
        2 ^ (8 * init.length + 7) := by
      calc Nat.ofDigits 256 (init.map UInt8.toNat) + 256 ^ init.length * (last.toNat % 128)
          < 256 ^ init.length + 256 ^ init.length * (last.toNat % 128) := by omega
        _ = 256 ^ init.length * (last.toNat % 128 + 1) := by ring
        _ ≤ 256 ^ init.length * 128 := Nat.mul_le_mul_left _ (by omega)
        _ = 2 ^ (8 * init.length + 7) := by rw [hk, Nat.pow_add]
    rw [hmask, hsplit, add_two_pow_and_mask hu (by omega),
      int64OfBits_of_lt (Nat.lt_of_lt_of_le hu (Nat.pow_le_pow_right (by decide) (by omega)))]
  case neg =>
    have h128 : ¬ 128 ≤ last.toNat := fun h => hsign ((and_80_ne_zero_iff last).mpr h)
    rw [if_neg hsign, if_neg hsign, Nat.mod_eq_of_lt (by omega : last.toNat < 128)]
    apply int64OfBits_of_lt
    calc Nat.ofDigits 256 (init.map UInt8.toNat) + 256 ^ init.length * last.toNat
        < 256 ^ init.length + 256 ^ init.length * last.toNat := by omega
      _ = 256 ^ init.length * (last.toNat + 1) := by ring
      _ ≤ 256 ^ init.length * 128 := Nat.mul_le_mul_left _ (by omega)
      _ ≤ 2 ^ 63 := hsmall

/-! ## `serialize` -/

/-- The magnitude loop of `serialize` writes the base-256 digits. -/
theorem absBytes_eq_digits (fuel n : Nat) (h : n < 256 ^ fuel) :
    absBytes fuel n = (Nat.digits 256 n).map Nat.toUInt8 := by
  induction fuel generalizing n with
  | zero =>
    have hn : n = 0 := by rw [Nat.pow_zero] at h; omega
    subst hn
    rfl
  | succ fuel ih =>
    by_cases hn : n = 0
    case pos =>
      subst hn
      rfl
    case neg =>
      rw [Nat.pow_succ] at h
      rw [absBytes, if_neg hn, Nat.digits_def' (by decide) (Nat.pos_of_ne_zero hn), List.map_cons,
        ih (n / 256) (by omega)]

theorem toNat_toUInt8 {x : Nat} (h : x < 256) : x.toUInt8.toNat = x := by
  simp [Nat.mod_eq_of_lt h]

theorem map_toNat_toUInt8 {l : List Nat} (h : ∀ x ∈ l, x < 256) :
    (l.map Nat.toUInt8).map UInt8.toNat = l := by
  induction l with
  | nil => rfl
  | cons x l ih =>
    simp only [List.map_cons, List.mem_cons, forall_eq_or_imp] at h ⊢
    rw [toNat_toUInt8 h.1, ih h.2]

/-- A byte below `0x80` with the sign bit set. -/
theorem toNat_or_80 (t : UInt8) (h : t.toNat < 128) : (t ||| 0x80).toNat = t.toNat + 128 := by
  rw [UInt8.toNat_or, show (0x80 : UInt8).toNat = 2 ^ 7 * 1 from rfl, Nat.or_comm,
    ← Nat.two_pow_add_eq_or_of_lt (by omega)]
  omega

/-- The base-256 digits of a magnitude, split at the top one. -/
theorem digits_split {m : Nat} (hm : m ≠ 0) :
    ∃ init top, Nat.digits 256 m = init ++ [top] ∧ top ≠ 0 ∧ top < 256 ∧ (∀ x ∈ init, x < 256) ∧
      m = Nat.ofDigits 256 init + 256 ^ init.length * top := by
  have hne : Nat.digits 256 m ≠ [] := Nat.digits_ne_nil_iff_ne_zero.mpr hm
  have hsplit := (List.dropLast_append_getLast hne).symm
  have hlt : ∀ x ∈ Nat.digits 256 m, x < 256 := fun x hx => Nat.digits_lt_base (by decide) hx
  refine ⟨_, _, hsplit, Nat.getLast_digit_ne_zero 256 hm, hlt _ (List.getLast_mem hne),
    fun x hx => hlt x (List.mem_of_mem_dropLast hx), ?_⟩
  conv_lhs => rw [← Nat.ofDigits_digits 256 m, hsplit]
  rw [Nat.ofDigits_append, Nat.ofDigits_singleton]

/-- `serialize` of a nonzero number: the magnitude's digits, and the sign in a byte of its
own when the top digit has bit 7 set, else in the top digit. -/
theorem scriptNumSerialize_of_ne_zero {n : Int} (hn : n ≠ 0) (hlt : n.natAbs < 256 ^ 8)
    {init : List Nat} {top : Nat} (hd : Nat.digits 256 n.natAbs = init ++ [top])
    (htop : top < 256) :
    scriptNumSerialize n =
      if 128 ≤ top then init.map Nat.toUInt8 ++ [top.toUInt8] ++ [if n < 0 then 0x80 else 0]
      else if n < 0 then init.map Nat.toUInt8 ++ [top.toUInt8 ||| 0x80]
      else init.map Nat.toUInt8 ++ [top.toUInt8] := by
  have hsign := and_80_ne_zero_iff top.toUInt8
  rw [toNat_toUInt8 htop] at hsign
  unfold scriptNumSerialize
  rw [if_neg hn]
  dsimp only
  rw [absBytes_eq_digits 8 _ hlt, hd, List.map_append, List.map_singleton, List.getLast?_concat,
    Option.getD_some]
  by_cases h128 : 128 ≤ top
  case pos => rw [if_pos (hsign.mpr h128), if_pos h128]
  case neg =>
    rw [if_neg (fun h => h128 (hsign.mp h)), if_neg h128, List.dropLast_concat]

/-- The minimality test on a vector with last byte `l`: `l` is not zero apart from its sign
bit, or the byte below it has bit 7 set. -/
theorem minimallyEncoded_concat (w : List UInt8) (l : UInt8) :
    minimallyEncoded (w ++ [l]) = (l &&& 0x7f != 0 || w.getLast?.any (· &&& 0x80 != 0)) := by
  unfold minimallyEncoded
  rw [List.getLast?_concat]
  dsimp only
  rcases List.eq_nil_or_concat' w with rfl | ⟨u, p, rfl⟩
  case inl => by_cases hl : l &&& 0x7f = 0 <;> simp [hl, bne]
  case inr =>
    have hlen : ¬ (u ++ [p] ++ [l]).length ≤ 1 := by simp
    have hget : (u ++ [p] ++ [l]).getD ((u ++ [p] ++ [l]).length - 2) 0 = p := by
      simp [List.getD_eq_getElem?_getD]
    rw [decide_eq_false hlen, hget, List.getLast?_concat]
    by_cases hl : l &&& 0x7f = 0 <;> by_cases hp : p &&& 0x80 = 0 <;> simp [hl, hp, bne]

/-- A vector of at most eight bytes that passes the minimality test is read by `set_vch`. -/
theorem scriptNumOfVch_of_minimal {v : List UInt8} (hlen : v.length ≤ 8)
    (hmin : minimallyEncoded v = true) : scriptNumOfVch v true 8 = .ok (scriptNumSetVch v) := by
  unfold scriptNumOfVch
  rw [if_neg (by omega), hmin]
  rfl

theorem natAbs_signed (n : Int) :
    (if n < 0 then -(n.natAbs : Int) else n.natAbs) = n := by
  by_cases h : n < 0
  case pos => rw [if_pos h]; omega
  case neg => rw [if_neg h]; omega

/-- **Every `int64_t` but `INT64_MIN` reads back from its serialization**, under the
minimality test and at eight bytes. -/
theorem scriptNumOfVch_serialize (n : Int) (hlo : -2 ^ 63 < n) (hhi : n < 2 ^ 63) :
    scriptNumOfVch (scriptNumSerialize n) true 8 = .ok n := by
  by_cases hn : n = 0
  case pos =>
    subst hn
    rfl
  case neg =>
    have hm : n.natAbs ≠ 0 := Int.natAbs_ne_zero.mpr hn
    have habs : n.natAbs < 2 ^ 63 := by omega
    obtain ⟨init, top, hd, htop0, htop, hinit, hval⟩ := digits_split hm
    have hlen : init.length + 1 ≤ 8 := by
      have h := (Nat.digits_length_le_iff (b := 256) (k := 8) (by decide) n.natAbs).mpr (by omega)
      rwa [hd, List.length_append, List.length_singleton] at h
    have hI : (init.map Nat.toUInt8).map UInt8.toNat = init := map_toNat_toUInt8 hinit
    have ht : top.toUInt8.toNat = top := toNat_toUInt8 htop
    have hsign := and_80_ne_zero_iff top.toUInt8
    rw [ht] at hsign
    rw [scriptNumSerialize_of_ne_zero hn (by omega) hd htop]
    by_cases h128 : 128 ≤ top
    case pos =>
      -- the sign takes a byte of its own, and the top digit leaves room for it
      have hroom : init.length + 2 ≤ 8 := by
        have h1 : 2 ^ (8 * init.length + 7) < 2 ^ 63 := by
          calc 2 ^ (8 * init.length + 7) = 256 ^ init.length * 128 := by
                rw [Nat.pow_add, Nat.pow_mul]
            _ ≤ 256 ^ init.length * top := Nat.mul_le_mul_left _ h128
            _ ≤ n.natAbs := by rw [hval]; omega
            _ < 2 ^ 63 := habs
        have h2 := (Nat.pow_lt_pow_iff_right (by decide : 1 < 2)).mp h1
        omega
      have hs7 : ((if n < 0 then 0x80 else 0 : UInt8) &&& 0x7f) = 0 := by
        split <;> decide
      have hs8 : ((if n < 0 then 0x80 else 0 : UInt8) &&& 0x80 ≠ 0) ↔ n < 0 := by
        split
        case isTrue h => exact ⟨fun _ => h, fun _ => by decide⟩
        case isFalse h => exact ⟨fun h' => absurd rfl h', fun h' => absurd h' h⟩
      rw [if_pos h128, scriptNumOfVch_of_minimal (by simp; omega)
        (by rw [minimallyEncoded_concat, List.getLast?_concat]; simp [bne, hsign.mpr h128]),
        scriptNumSetVch_concat _ _ (by simp; omega)]
      unfold signMagnitude
      dsimp only
      rw [hs7, List.map_append, hI, List.map_singleton, ht, ← hd, Nat.ofDigits_digits,
        UInt8.toNat_zero, Nat.mul_zero, Nat.add_zero]
      conv_rhs => rw [← natAbs_signed n]
      by_cases hneg : n < 0
      case pos => rw [if_pos (hs8.mpr hneg), if_pos hneg]
      case neg => rw [if_neg (fun h => hneg (hs8.mp h)), if_neg hneg]
    case neg =>
      have h7 : (top.toUInt8 &&& 0x7f).toNat = top := by
        rw [toNat_and_7f, ht]
        omega
      by_cases hneg : n < 0
      case pos =>
        -- the sign goes into the top digit
        have hor := toNat_or_80 top.toUInt8 (by omega)
        rw [ht] at hor
        have hor7 : ((top.toUInt8 ||| 0x80) &&& 0x7f).toNat = top := by
          rw [toNat_and_7f, hor]
          omega
        have hor8 : (top.toUInt8 ||| 0x80) &&& 0x80 ≠ 0 := (and_80_ne_zero_iff _).mpr (by omega)
        rw [if_neg h128, if_pos hneg, scriptNumOfVch_of_minimal (by simp; omega)
          (by
            rw [minimallyEncoded_concat]
            have : (top.toUInt8 ||| 0x80) &&& 0x7f ≠ 0 := by
              intro h0
              rw [h0, UInt8.toNat_zero] at hor7
              omega
            simp [bne, this]),
          scriptNumSetVch_concat _ _ (by simp; omega)]
        unfold signMagnitude
        dsimp only
        rw [hor7, hI, List.length_map, ← hval, if_pos hor8]
        exact congrArg Except.ok (by omega)
      case neg =>
        have h8 : ¬ (top.toUInt8 &&& 0x80 ≠ 0) := fun h => h128 (hsign.mp h)
        rw [if_neg h128, if_neg hneg, scriptNumOfVch_of_minimal (by simp; omega)
          (by
            rw [minimallyEncoded_concat]
            have : top.toUInt8 &&& 0x7f ≠ 0 := by
              intro h0
              rw [h0, UInt8.toNat_zero] at h7
              omega
            simp [bne, this]),
          scriptNumSetVch_concat _ _ (by simp; omega)]
        unfold signMagnitude
        dsimp only
        rw [h7, hI, List.length_map, ← hval, if_neg h8]
        exact congrArg Except.ok (by omega)

theorem map_toUInt8_toNat (w : List UInt8) : (w.map UInt8.toNat).map Nat.toUInt8 = w := by
  induction w with
  | nil => rfl
  | cons b w ih => simp only [List.map_cons, ih, Nat.toUInt8_eq, UInt8.ofNat_toNat]

/-- A byte that is zero apart from its sign bit is `0x00` or `0x80`. -/
theorem eq_zero_or_80_of_and_7f {l : UInt8} (h : l &&& 0x7f = 0) : l = 0 ∨ l = 0x80 := by
  have h7 := toNat_and_7f l
  rw [h, UInt8.toNat_zero] at h7
  have hl := l.toNat_lt
  by_cases h0 : l.toNat = 0
  case pos => exact Or.inl (UInt8.toNat_inj.mp h0)
  case neg => exact Or.inr (UInt8.toNat_inj.mp (by rw [show (0x80 : UInt8).toNat = 128 from rfl]; omega))

/-- The magnitude of a vector whose last byte is not zero apart from its sign has that
byte, sign bit cleared, as its top digit. -/
theorem digits_signMagnitude {w : List UInt8} {l7 : Nat} (h0 : l7 ≠ 0) (h7 : l7 < 256) :
    Nat.digits 256 (Nat.ofDigits 256 (w.map UInt8.toNat) + 256 ^ w.length * l7) =
      w.map UInt8.toNat ++ [l7] := by
  have hval : Nat.ofDigits 256 (w.map UInt8.toNat ++ [l7]) =
      Nat.ofDigits 256 (w.map UInt8.toNat) + 256 ^ w.length * l7 := by
    rw [Nat.ofDigits_append, Nat.ofDigits_singleton, List.length_map]
  rw [← hval]
  apply Nat.digits_ofDigits 256 (by decide)
  · intro x hx
    rcases List.mem_append.mp hx with hx | hx
    · obtain ⟨b, -, rfl⟩ := List.mem_map.mp hx
      exact b.toNat_lt
    · rw [List.mem_singleton.mp hx]
      exact h7
  · intro _
    rw [List.getLast_append_of_ne_nil _ (List.cons_ne_nil _ _), List.getLast_singleton]
    exact h0

/-- **Every minimal vector of at most eight bytes is the serialization of its value.** -/
theorem scriptNumSerialize_setVch (v : List UInt8) (hlen : v.length ≤ 8)
    (hmin : minimallyEncoded v = true) : scriptNumSerialize (scriptNumSetVch v) = v := by
  rcases List.eq_nil_or_concat' v with rfl | ⟨w, l, rfl⟩
  case inl => rfl
  case inr =>
    have hw : w.length < 8 := by
      rw [List.length_append, List.length_singleton] at hlen
      omega
    have hwlt := ofDigits_map_toNat_lt w
    have hpow : 256 ^ w.length * 256 ≤ 256 ^ 8 := by
      rw [← Nat.pow_succ]
      exact Nat.pow_le_pow_right (by decide) hw
    rw [scriptNumSetVch_concat w l hw]
    rw [minimallyEncoded_concat] at hmin
    unfold signMagnitude
    dsimp only
    by_cases h7 : l &&& 0x7f = 0
    case pos =>
      -- `l` is only the sign, so the byte below it carries bit 7
      have hbelow : w.getLast?.any (· &&& 0x80 != 0) = true := by simpa [h7] using hmin
      obtain ⟨u, p, rfl⟩ := (List.eq_nil_or_concat' w).resolve_left (by
        rintro rfl
        simp at hbelow)
      have hp : p &&& 0x80 ≠ 0 := by simpa [bne] using hbelow
      have hp128 := (and_80_ne_zero_iff p).mp hp
      rw [h7, UInt8.toNat_zero, Nat.mul_zero, Nat.add_zero]
      have hd : Nat.digits 256 (Nat.ofDigits 256 ((u ++ [p]).map UInt8.toNat)) =
          u.map UInt8.toNat ++ [p.toNat] := by
        rw [List.map_append, List.map_singleton, Nat.ofDigits_append, Nat.ofDigits_singleton,
          List.length_map, digits_signMagnitude (by omega) p.toNat_lt]
      have hM0 : Nat.ofDigits 256 ((u ++ [p]).map UInt8.toNat) ≠ 0 := by
        intro h
        rw [h, Nat.digits_zero] at hd
        exact List.append_ne_nil_of_right_ne_nil _ (List.cons_ne_nil _ _) hd.symm
      have hMlt : Nat.ofDigits 256 ((u ++ [p]).map UInt8.toNat) < 256 ^ 8 := by
        have := ofDigits_map_toNat_lt (u ++ [p])
        omega
      rcases eq_zero_or_80_of_and_7f h7 with rfl | rfl
      case inl =>
        rw [if_neg (by decide)]
        rw [scriptNumSerialize_of_ne_zero (by exact_mod_cast hM0) (by simpa using hMlt)
          (by simpa using hd) p.toNat_lt, if_pos hp128, if_neg (by omega)]
        simp only [map_toUInt8_toNat, Nat.toUInt8_eq, UInt8.ofNat_toNat]
      case inr =>
        rw [if_pos (by decide)]
        rw [scriptNumSerialize_of_ne_zero (by omega) (by simpa using hMlt)
          (by simpa using hd) p.toNat_lt, if_pos hp128, if_pos (by omega)]
        simp only [map_toUInt8_toNat, Nat.toUInt8_eq, UInt8.ofNat_toNat]
    case neg =>
      -- the top digit is `l` with its sign bit cleared
      have h7pos : (l &&& 0x7f).toNat ≠ 0 := fun h => h7 (UInt8.toNat_inj.mp h)
      have h7lt : (l &&& 0x7f).toNat < 128 := by rw [toNat_and_7f]; omega
      have hd := digits_signMagnitude (w := w) h7pos (by omega)
      obtain ⟨M, hM⟩ : ∃ M, M = Nat.ofDigits 256 (w.map UInt8.toNat) +
          256 ^ w.length * (l &&& 0x7f).toNat := ⟨_, rfl⟩
      rw [← hM] at hd ⊢
      have hM0 : M ≠ 0 := by
        have := Nat.mul_le_mul_left (256 ^ w.length) (Nat.one_le_iff_ne_zero.mpr h7pos)
        have := Nat.pow_pos (n := w.length) (by decide : 0 < 256)
        omega
      have hMlt : M < 256 ^ 8 := by
        have : 256 ^ w.length * (l &&& 0x7f).toNat + 256 ^ w.length ≤ 256 ^ w.length * 256 := by
          rw [← Nat.mul_succ]
          exact Nat.mul_le_mul_left _ (by omega)
        omega
      have hl7 : (l &&& 0x7f).toNat = l.toNat % 128 := toNat_and_7f l
      have hl := l.toNat_lt
      by_cases hsign : l &&& 0x80 ≠ 0
      case pos =>
        have h128 := (and_80_ne_zero_iff l).mp hsign
        have hneg : -(M : Int) ≠ 0 := by omega
        have habs : (-(M : Int)).natAbs = M := by omega
        rw [if_pos hsign, scriptNumSerialize_of_ne_zero hneg (by rw [habs]; exact hMlt)
          (by rw [habs]; exact hd) (by omega), if_neg (by omega), if_pos (by omega),
          map_toUInt8_toNat]
        -- the top digit with the sign bit set back is `l`
        congr 2
        apply UInt8.toNat_inj.mp
        rw [toNat_or_80 _ (by rw [toNat_toUInt8 (by omega)]; omega), toNat_toUInt8 (by omega)]
        omega
      case neg =>
        have h128 : ¬ 128 ≤ l.toNat := fun h => hsign ((and_80_ne_zero_iff l).mpr h)
        have hpos : (M : Int) ≠ 0 := by omega
        have habs : (M : Int).natAbs = M := Int.natAbs_natCast M
        rw [if_neg hsign, scriptNumSerialize_of_ne_zero hpos (by rw [habs]; exact hMlt)
          (by rw [habs]; exact hd) (by omega), if_neg (by omega), if_neg (by omega),
          map_toUInt8_toNat]
        congr 2
        apply UInt8.toNat_inj.mp
        rw [toNat_toUInt8 (by omega)]
        omega

/-- `-255` needs the extra sign byte: `0xff 0x80`. -/
example : scriptNumSetVch [0xff, 0x80] = -255 ∧ scriptNumSerialize (-255) = [0xff, 0x80] := by
  decide

/-- **Script numbers round-trip at eight bytes**: every `int64_t` but `INT64_MIN` is read
back from its serialization under the minimality test, and every vector of at most eight
bytes that passes the test is read without error and is the serialization of its value. -/
theorem scriptNum_roundTrip :
    (∀ n : Int, -2 ^ 63 < n → n < 2 ^ 63 → scriptNumOfVch (scriptNumSerialize n) true 8 = .ok n) ∧
      ∀ v : List UInt8, v.length ≤ 8 → minimallyEncoded v = true →
        ∃ n, scriptNumOfVch v true 8 = .ok n ∧ scriptNumSerialize n = v :=
  ⟨scriptNumOfVch_serialize, fun v hlen hmin =>
    ⟨_, scriptNumOfVch_of_minimal hlen hmin, scriptNumSerialize_setVch v hlen hmin⟩⟩

/-- The round trip at `-255` and at its encoding `0xff 0x80`. -/
theorem scriptNum_roundTrip_255 :
    scriptNumOfVch (scriptNumSerialize (-255)) true 8 = .ok (-255) ∧
      ∃ n, scriptNumOfVch [0xff, 0x80] true 8 = .ok n ∧ scriptNumSerialize n = [0xff, 0x80] :=
  ⟨scriptNum_roundTrip.1 (-255) (by decide) (by decide),
    scriptNum_roundTrip.2 [0xff, 0x80] (by decide) (by decide)⟩

end Script

end Sumcoin
