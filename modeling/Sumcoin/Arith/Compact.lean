import Sumcoin.Lib.Limbs

/-!
# The compact target format

A 32-bit compact word (`nBits`) stores a number as a base-256 float: the top byte is
the exponent `nSize`, a length in bytes; bit 23 is a sign; the low 23 bits are the
mantissa `nWord`.  `arith_uint256::SetCompact` and `CBigNum::SetCompact` read such a
word and both `GetCompact`s write one.  This module says what a word means and which
word a number should get, with neither class in sight; `Arith.ArithUint256` and
`Arith.BigNum` prove that their codecs compute exactly this, and the agreement of the
two codecs follows from the two refinements.

## Main definitions

* `Compact.magnitude`, `Compact.denote`: the number a word stands for.
* `Compact.byteSize`, `Compact.leadBytes`, `Compact.expMant`: exponent and mantissa of
  the compact form of a number.
* `Compact.pack`, `Compact.encode`: the word with given fields, and the compact form.
* `Compact.normalize`: the step both `GetCompact`s take after the leading bytes.

## Main statements

* `Compact.magnitude_encode`: the number the compact form of `x` stands for.
* `Compact.encode_magnitude_encode`: decoding and encoding again gives the same word.
-/

namespace Sumcoin.Compact

/-! ## The fields of a word -/

/-- The exponent byte, `nCompact >> 24`. -/
def exponent (nCompact : UInt32) : Nat := (nCompact >>> 24).toNat

/-- The mantissa, `nCompact & 0x007fffff`. -/
def mantissa (nCompact : UInt32) : Nat := (nCompact &&& 0x007fffff).toNat

/-- The sign bit, `nCompact & 0x00800000`. -/
def signBit (nCompact : UInt32) : Bool := nCompact &&& 0x00800000 != 0

theorem mantissa_lt (nCompact : UInt32) : mantissa nCompact < 2 ^ 23 := by
  have h : nCompact.toNat &&& 0x007fffff ≤ 0x007fffff := Nat.and_le_right
  simp only [mantissa, UInt32.toNat_and]
  exact Nat.lt_of_le_of_lt h (by decide)

/-! ## What a word stands for -/

/-- The magnitude of a word: the mantissa times `256 ^ (nSize - 3)`; below exponent
three the low bytes of the mantissa are dropped instead. -/
def magnitude (nCompact : UInt32) : Nat :=
  if exponent nCompact ≤ 3 then mantissa nCompact / 2 ^ (8 * (3 - exponent nCompact))
  else mantissa nCompact * 2 ^ (8 * (exponent nCompact - 3))

/-- The signed number a word stands for. -/
def denote (nCompact : UInt32) : Int :=
  if signBit nCompact then -(magnitude nCompact : Int) else magnitude nCompact

theorem magnitude_lt_of_exponent_le {nCompact : UInt32} (h : exponent nCompact ≤ 3) :
    magnitude nCompact < 2 ^ 23 := by
  rw [magnitude, if_pos h]
  exact Nat.lt_of_le_of_lt (Nat.div_le_self _ _) (mantissa_lt nCompact)

theorem magnitude_eq_zero_iff_of_lt {nCompact : UInt32} (h : 3 < exponent nCompact) :
    magnitude nCompact = 0 ↔ mantissa nCompact = 0 := by
  rw [magnitude, if_neg (Nat.not_le_of_lt h), Nat.mul_eq_zero]
  simp

/-- The short branch of both `SetCompact`s, `nWord >>= 8 * (3 - nSize)`, leaves the
magnitude. -/
theorem toNat_mantissa_shiftRight {nCompact : UInt32} (h : exponent nCompact ≤ 3) :
    ((nCompact &&& 0x007fffff) >>> (8 * (3 - exponent nCompact)).toUInt32).toNat =
      magnitude nCompact := by
  have hs : (8 * (3 - exponent nCompact)).toUInt32.toNat % 32 = 8 * (3 - exponent nCompact) := by
    simp
    omega
  rw [UInt32.toNat_shiftRight, hs, Nat.shiftRight_eq_div_pow, magnitude, if_pos h]
  rfl

/-! ## The compact form of a number -/

/-- `(bits + 7) / 8`: the bytes that `x` occupies. -/
def byteSize (x : Nat) : Nat := (x.size + 7) / 8

/-- The three leading bytes of `x`, as both `GetCompact`s take them: shifted up when
`x` is shorter than three bytes, down when it is longer. -/
def leadBytes (x : Nat) : Nat :=
  if byteSize x ≤ 3 then x * 2 ^ (8 * (3 - byteSize x)) else x / 2 ^ (8 * (byteSize x - 3))

/-- Exponent and mantissa of the compact form of `x`: leading bytes that reach the sign
bit move one byte down, and the exponent grows by one. -/
def expMant (x : Nat) : Nat × Nat :=
  if 2 ^ 23 ≤ leadBytes x then (byteSize x + 1, leadBytes x / 2 ^ 8)
  else (byteSize x, leadBytes x)

theorem lt_two_pow_byteSize (x : Nat) : x < 2 ^ (8 * byteSize x) := by
  have hs : x.size ≤ 8 * byteSize x := by
    unfold byteSize
    omega
  exact Nat.lt_of_lt_of_le (Nat.lt_size_self x) (Nat.pow_le_pow_right (by decide) hs)

theorem leadBytes_lt (x : Nat) : leadBytes x < 2 ^ 24 := by
  have hx := lt_two_pow_byteSize x
  unfold leadBytes
  split
  case isTrue h =>
    calc x * 2 ^ (8 * (3 - byteSize x))
        < 2 ^ (8 * byteSize x) * 2 ^ (8 * (3 - byteSize x)) :=
          Nat.mul_lt_mul_of_pos_right hx (Nat.two_pow_pos _)
      _ = 2 ^ 24 := by rw [← Nat.pow_add]; congr 1; omega
  case isFalse h =>
    rw [Nat.div_lt_iff_lt_mul (Nat.two_pow_pos _), ← Nat.pow_add]
    exact Nat.lt_of_lt_of_le hx (Nat.pow_le_pow_right (by decide) (by omega))

/-- A number other than zero keeps a leading byte other than zero. -/
theorem leadBytes_pos {x : Nat} (hx : 0 < x) : 0 < leadBytes x := by
  unfold leadBytes
  split
  case isTrue h => exact Nat.mul_pos hx (Nat.two_pow_pos _)
  case isFalse h =>
    -- the shift drops fewer bits than `x` has, so the top bit survives
    have hsize : 8 * (byteSize x - 3) < x.size := by
      unfold byteSize at h ⊢
      omega
    exact Nat.div_pos (Nat.lt_size.mp hsize) (Nat.two_pow_pos _)

theorem expMant_snd_lt (x : Nat) : (expMant x).2 < 2 ^ 23 := by
  have hl := leadBytes_lt x
  unfold expMant
  split
  · exact (Nat.div_lt_iff_lt_mul (Nat.two_pow_pos _)).mpr (Nat.lt_of_lt_of_le hl (by decide))
  · omega

theorem expMant_fst_le (x : Nat) : (expMant x).1 ≤ byteSize x + 1 := by
  unfold expMant
  split <;> simp

theorem expMant_snd_eq_zero_iff (x : Nat) : (expMant x).2 = 0 ↔ x = 0 := by
  refine ⟨fun h => ?_, fun h => ?_⟩
  · rcases Nat.eq_zero_or_pos x with hx | hx
    · exact hx
    · have hl := leadBytes_pos hx
      unfold expMant at h
      split at h <;> omega
  · subst h
    simp [expMant, leadBytes]

/-! ## Packing the fields -/

/-- The word with exponent byte `e`, sign `s` and mantissa `m`. -/
def pack (e : Nat) (s : Bool) (m : Nat) : UInt32 :=
  (UInt32.ofNat m ||| e.toUInt32 <<< 24) ||| if s then 0x00800000 else 0

/-- The compact form of `x` with sign `neg`; zero carries no sign. -/
def encode (x : Nat) (neg : Bool) : UInt32 :=
  pack (expMant x).1 (neg && x != 0) (expMant x).2

theorem pack_false (e m : Nat) : pack e false m = UInt32.ofNat m ||| e.toUInt32 <<< 24 := by
  simp [pack]

/-- The bits of a packed word: mantissa below bit 23, the sign at 23, the exponent above. -/
theorem testBit_pack (e : Nat) (s : Bool) {m : Nat} (hm : m < 2 ^ 23) (j : Nat) :
    (pack e s m).toNat.testBit j =
      if j < 23 then m.testBit j
      else if j = 23 then s else (decide (j < 32) && e.testBit (j - 24)) := by
  have hm32 : m % 2 ^ 32 = m := Nat.mod_eq_of_lt (by omega)
  have hsign : ((if s then (0x00800000 : UInt32) else 0).toNat).testBit j =
      (s && decide (j = 23)) := by
    cases s
    · simp
    · show (2 ^ 23).testBit j = _
      rw [Nat.testBit_two_pow]
      simp [eq_comm]
  simp only [pack, UInt32.toNat_or, Nat.testBit_or, hsign, UInt32.toNat_shiftLeft,
    UInt32.toNat_ofNat', hm32, Nat.toUInt32]
  rw [Nat.shiftLeft_eq, Nat.testBit_mod_two_pow, Nat.testBit_mul_two_pow,
    Nat.testBit_mod_two_pow]
  by_cases hj : j < 23
  · simp [hj, show ¬ 24 ≤ j by omega, show j ≠ 23 by omega]
  have hmj : m.testBit j = false :=
    Nat.testBit_lt_two_pow (Nat.lt_of_lt_of_le hm (Nat.pow_le_pow_right (by omega) (by omega)))
  by_cases h23 : j = 23
  · subst h23
    simp [hmj]
  by_cases h32 : j < 32
  · simp [hj, h23, hmj, h32, show 24 ≤ j by omega, show j - 24 < 32 by omega]
  · simp [hj, h23, hmj, h32]

/-- Masking a packed word leaves its mantissa. -/
theorem pack_and_mask (e : Nat) (s : Bool) {m : Nat} (hm : m < 2 ^ 23) :
    pack e s m &&& 0x007fffff = UInt32.ofNat m := by
  apply UInt32.toNat_inj.mp
  apply Nat.eq_of_testBit_eq
  intro j
  have hmask : (0x007fffff : UInt32).toNat = 2 ^ 23 - 1 := rfl
  rw [UInt32.toNat_and, Nat.testBit_and, testBit_pack e s hm, hmask, Nat.testBit_two_pow_sub_one,
    UInt32.toNat_ofNat', Nat.mod_eq_of_lt (by omega)]
  by_cases hj : j < 23
  · simp [hj]
  · simp [hj, Nat.testBit_lt_two_pow (Nat.lt_of_lt_of_le hm
      (Nat.pow_le_pow_right (by omega) (Nat.le_of_not_lt hj)))]

/-! ## The step both `GetCompact`s share -/

/-- `if (nCompact & 0x00800000) { nCompact >>= 8; nSize++; }`: the bit denotes the sign,
so leading bytes that reach it move one byte down. -/
def normalize (nCompact : UInt32) (nSize : Nat) : UInt32 × Nat :=
  if nCompact &&& 0x00800000 != 0 then (nCompact >>> 8, nSize + 1) else (nCompact, nSize)

/-- On the leading bytes of `x` the shared step yields the fields of the compact form. -/
theorem normalize_leadBytes (x : Nat) :
    normalize (UInt32.ofNat (leadBytes x)) (byteSize x) =
      (UInt32.ofNat (expMant x).2, (expMant x).1) := by
  have hl := leadBytes_lt x
  have hmod : leadBytes x % 2 ^ 32 = leadBytes x := Nat.mod_eq_of_lt (by omega)
  have hbit : (UInt32.ofNat (leadBytes x) &&& 0x00800000 != 0) =
      decide (2 ^ 23 ≤ leadBytes x) := by
    have hone : (0x00800000 : UInt32) = 1 <<< (23 : Nat).toUInt32 := rfl
    rw [Bool.eq_iff_iff, bne_iff_ne, hone, Limbs.and_one_shiftLeft_ne_zero _ (by decide),
      UInt32.toNat_ofNat', hmod, Nat.testBit_eq_decide_div_mod_eq, decide_eq_true_iff, decide_eq_true_iff]
    omega
  have hshift : UInt32.ofNat (leadBytes x) >>> 8 = UInt32.ofNat (leadBytes x / 2 ^ 8) := by
    apply UInt32.toNat_inj.mp
    have hq : leadBytes x / 2 ^ 8 % 2 ^ 32 = leadBytes x / 2 ^ 8 := Nat.mod_eq_of_lt (by omega)
    simp only [UInt32.toNat_shiftRight, UInt32.toNat_ofNat', hmod, hq, Nat.shiftRight_eq_div_pow]
    rfl
  unfold normalize expMant
  rw [hbit]
  by_cases h : 2 ^ 23 ≤ leadBytes x
  · rw [if_pos (decide_eq_true h), if_pos h, hshift]
  · rw [if_neg (by simpa using h), if_neg h]

/-! ## Reading a compact form back

`SetCompact` of the word `GetCompact` writes for `x` is `x` with every bit below the
mantissa's lowest position, `8 * (nSize - 3)`, cleared (`magnitude_encode`): the 23-bit
mantissa window is aligned on a byte, so between 16 and 23 leading bits survive.
Encoding that number again, with the sign `SetCompact` reports, gives the same word
(`encode_magnitude_encode`). -/

/-- The exponent byte of a packed word. -/
theorem exponent_pack {e : Nat} (s : Bool) {m : Nat} (he : e < 256) (hm : m < 2 ^ 23) :
    exponent (pack e s m) = e := by
  apply Nat.eq_of_testBit_eq
  intro j
  rw [exponent, UInt32.toNat_shiftRight, show (24 : UInt32).toNat % 32 = 24 from rfl,
    Nat.testBit_shiftRight, testBit_pack e s hm]
  rw [if_neg (by omega), if_neg (by omega), Nat.add_sub_cancel_left]
  by_cases hj : j < 8
  · simp [show 24 + j < 32 by omega]
  · -- above the exponent byte both sides are clear
    have h8 : 2 ^ 8 ≤ 2 ^ j := Nat.pow_le_pow_right (by decide) (by omega)
    have hej : e < 2 ^ j := Nat.lt_of_lt_of_le he h8
    simp [show ¬ 24 + j < 32 by omega, Nat.testBit_lt_two_pow hej]

/-- The mantissa of a packed word. -/
theorem mantissa_pack (e : Nat) (s : Bool) {m : Nat} (hm : m < 2 ^ 23) :
    mantissa (pack e s m) = m := by
  rw [mantissa, pack_and_mask e s hm, UInt32.toNat_ofNat', Nat.mod_eq_of_lt (by omega)]

/-- The sign bit of a packed word. -/
theorem signBit_pack (e : Nat) (s : Bool) {m : Nat} (hm : m < 2 ^ 23) :
    signBit (pack e s m) = s := by
  have hone : (0x00800000 : UInt32) = 1 <<< (23 : Nat).toUInt32 := rfl
  rw [signBit, hone, Bool.eq_iff_iff, bne_iff_ne, Limbs.and_one_shiftLeft_ne_zero _ (by decide),
    testBit_pack e s hm]
  simp

/-- A 256-bit number takes at most 32 bytes. -/
theorem byteSize_le_of_lt {x : Nat} (hx : x < 2 ^ 256) : byteSize x ≤ 32 := by
  have hs : x.size ≤ 256 := Nat.size_le.mpr hx
  unfold byteSize
  omega

/-- The exponent of a 256-bit number fits in its byte. -/
theorem expMant_fst_lt {x : Nat} (hx : x < 2 ^ 256) : (expMant x).1 < 256 := by
  have := expMant_fst_le x
  have := byteSize_le_of_lt hx
  omega

/-- The leading bytes of a number of at most three bytes. -/
theorem leadBytes_of_le {x : Nat} (hb : byteSize x ≤ 3) :
    leadBytes x = x * 2 ^ (8 * (3 - byteSize x)) := if_pos hb

/-- The leading bytes of a longer number. -/
theorem leadBytes_of_lt {x : Nat} (hb : 3 < byteSize x) :
    leadBytes x = x / 2 ^ (8 * (byteSize x - 3)) := if_neg (by omega)

/-- The two branches of `expMant`. -/
theorem expMant_cases (x : Nat) :
    (expMant x = (byteSize x + 1, leadBytes x / 2 ^ 8) ∧ 2 ^ 23 ≤ leadBytes x) ∨
      (expMant x = (byteSize x, leadBytes x) ∧ leadBytes x < 2 ^ 23) := by
  unfold expMant
  by_cases h : 2 ^ 23 ≤ leadBytes x
  · exact Or.inl ⟨if_pos h, h⟩
  · exact Or.inr ⟨if_neg h, by omega⟩

/-- The exponent byte of a compact form. -/
theorem exponent_encode {x : Nat} (hx : x < 2 ^ 256) (neg : Bool) :
    exponent (encode x neg) = (expMant x).1 :=
  exponent_pack _ (expMant_fst_lt hx) (expMant_snd_lt x)

/-- The sign bit of a compact form: set for a negative number other than zero. -/
theorem signBit_encode (x : Nat) (neg : Bool) : signBit (encode x neg) = (neg && x != 0) :=
  signBit_pack _ _ (expMant_snd_lt x)

/-- A word stands for its mantissa placed at byte `exponent - 3`, below `2 ^ 23` there. -/
theorem magnitude_lt (nCompact : UInt32) :
    magnitude nCompact < 2 ^ 23 * 2 ^ (8 * (exponent nCompact - 3)) := by
  have hm := mantissa_lt nCompact
  rw [magnitude]
  split
  · rw [show exponent nCompact - 3 = 0 by omega, Nat.mul_zero, Nat.pow_zero, Nat.mul_one]
    exact lt_of_le_of_lt (Nat.div_le_self _ _) hm
  · exact Nat.mul_lt_mul_of_pos_right hm (Nat.two_pow_pos _)

/-- **The number the compact form of `x` stands for**: `x` with the bits below
position `8 * (nSize - 3)` cleared. -/
theorem magnitude_encode {x : Nat} (hx : x < 2 ^ 256) (neg : Bool) :
    magnitude (encode x neg) =
      x / 2 ^ (8 * ((expMant x).1 - 3)) * 2 ^ (8 * ((expMant x).1 - 3)) := by
  have he := expMant_fst_lt hx
  have hm := expMant_snd_lt x
  rw [magnitude, encode, exponent_pack _ he hm, mantissa_pack _ _ hm]
  rcases expMant_cases x with ⟨hE, hl⟩ | ⟨hE, hl⟩ <;> (rw [hE]; dsimp only)
  · -- the leading bytes reach the sign bit and lose their last byte
    by_cases hb : byteSize x ≤ 2
    · -- a number of at most two bytes comes back whole
      have hpow : 2 ^ (8 * (3 - byteSize x)) = 2 ^ (8 * (3 - (byteSize x + 1))) * 2 ^ 8 := by
        rw [← Nat.pow_add]; congr 1; omega
      rw [leadBytes_of_le (by omega), if_pos (by omega), hpow, ← Nat.mul_assoc,
        Nat.mul_div_cancel _ (Nat.two_pow_pos 8), Nat.mul_div_cancel _ (Nat.two_pow_pos _),
        show byteSize x + 1 - 3 = 0 by omega]
      simp
    · rw [if_neg (by omega)]
      by_cases h3 : byteSize x = 3
      · rw [leadBytes_of_le (by omega), h3]
        simp
      · rw [leadBytes_of_lt (by omega), Nat.div_div_eq_div_mul, ← Nat.pow_add]
        congr 3; omega
  · by_cases hb : byteSize x ≤ 3
    · -- a short number whose leading bytes stay below the sign bit comes back whole
      rw [leadBytes_of_le hb, if_pos hb, Nat.mul_div_cancel _ (Nat.two_pow_pos _),
        show byteSize x - 3 = 0 by omega]
      simp
    · rw [leadBytes_of_lt (by omega), if_neg hb]

/-- A number below `2 ^ 23` is a short compact form: its exponent is at most three. -/
theorem expMant_fst_le_three {x : Nat} (hx : x < 2 ^ 23) : (expMant x).1 ≤ 3 := by
  have hs : x.size ≤ 23 := Nat.size_le.mpr hx
  have hb : byteSize x ≤ 3 := by unfold byteSize; omega
  rcases expMant_cases x with ⟨hE, hl⟩ | ⟨hE, -⟩
  · rw [hE]
    -- three bytes whose leading bytes reach the sign bit would be `2 ^ 23` or more
    by_contra h3
    rw [leadBytes_of_le hb, show byteSize x = 3 by simp at h3; omega] at hl
    simp at hl
    omega
  · rw [hE]
    exact hb

/-- Clearing low bits below the top one keeps the bit length. -/
theorem size_div_mul {x k : Nat} (h : 0 < x / 2 ^ k) : (x / 2 ^ k * 2 ^ k).size = x.size := by
  have hx : x = x % 2 ^ k + 2 ^ k * (x / 2 ^ k) := (Nat.mod_add_div x (2 ^ k)).symm
  have hq : x / 2 ^ k ≠ 0 := Nat.pos_iff_ne_zero.mp h
  conv_rhs => rw [hx]
  rw [Limbs.size_add_two_pow_mul (Nat.mod_lt _ (Nat.two_pow_pos k)) hq, Nat.mul_comm,
    ← Nat.zero_add (2 ^ k * (x / 2 ^ k)), Limbs.size_add_two_pow_mul (Nat.two_pow_pos k) hq]

/-- Clearing low bits below the top one keeps the byte size. -/
theorem byteSize_div_mul {x k : Nat} (h : 0 < x / 2 ^ k) :
    byteSize (x / 2 ^ k * 2 ^ k) = byteSize x := by
  rw [byteSize, byteSize, size_div_mul h]

/-- Two numbers of one byte size whose leading bytes both reach the sign bit and agree
above their last byte have one compact form. -/
theorem expMant_eq_of_lead {x y : Nat} (hb : byteSize y = byteSize x)
    (hx : 2 ^ 23 ≤ leadBytes x) (hy : 2 ^ 23 ≤ leadBytes y)
    (hl : leadBytes y / 2 ^ 8 = leadBytes x / 2 ^ 8) : expMant y = expMant x := by
  rw [expMant, expMant, if_pos hx, if_pos hy, hb, hl]

/-- Re-encoding when the leading bytes reach the sign bit: the cleared number keeps the
size and the leading bytes above their last byte. -/
theorem expMant_div_mul_of_high {x : Nat}
    (hE : expMant x = (byteSize x + 1, leadBytes x / 2 ^ 8)) (hl : 2 ^ 23 ≤ leadBytes x) :
    expMant (x / 2 ^ (8 * (byteSize x + 1 - 3)) * 2 ^ (8 * (byteSize x + 1 - 3))) =
      (byteSize x + 1, leadBytes x / 2 ^ 8) := by
  by_cases hb : byteSize x ≤ 2
  · rw [show byteSize x + 1 - 3 = 0 by omega, Nat.mul_zero, Nat.pow_zero, Nat.div_one,
      Nat.mul_one, hE]
  -- the last byte is cleared; what is left keeps the size and the leading bytes above it
  have hk : 8 * (byteSize x + 1 - 3) = 8 * (byteSize x - 3) + 8 := by omega
  have hq : x / 2 ^ (8 * (byteSize x + 1 - 3)) = leadBytes x / 2 ^ 8 := by
    rw [hk, Nat.pow_add, ← Nat.div_div_eq_div_mul]
    by_cases h3 : byteSize x = 3
    · rw [leadBytes_of_le (by omega), h3]
      simp
    · rw [leadBytes_of_lt (by omega)]
  have hqpos : 2 ^ 15 ≤ x / 2 ^ (8 * (byteSize x + 1 - 3)) := by
    rw [hq, Nat.le_div_iff_mul_le (Nat.two_pow_pos 8)]
    exact hl
  have hby := byteSize_div_mul (lt_of_lt_of_le (Nat.two_pow_pos 15) hqpos)
  -- the new leading bytes are the quotient shifted up by one byte
  have hly : leadBytes (x / 2 ^ (8 * (byteSize x + 1 - 3)) * 2 ^ (8 * (byteSize x + 1 - 3))) =
      x / 2 ^ (8 * (byteSize x + 1 - 3)) * 2 ^ 8 := by
    by_cases h3 : byteSize x = 3
    · rw [leadBytes_of_le (by omega), hby, h3]
      simp
    · have hk' : 8 * (byteSize x + 1 - 3) = 8 + 8 * (byteSize x - 3) := by omega
      rw [leadBytes_of_lt (by omega), hby, hk', Nat.pow_add, ← Nat.mul_assoc,
        Nat.mul_div_cancel _ (Nat.two_pow_pos _)]
  refine (expMant_eq_of_lead hby hl ?_ ?_).trans hE
  · rw [hly]
    calc 2 ^ 23 = 2 ^ 15 * 2 ^ 8 := by norm_num
      _ ≤ _ := Nat.mul_le_mul_right _ hqpos
  · rw [hly, Nat.mul_div_cancel _ (Nat.two_pow_pos 8), hq]

/-- Re-encoding when the leading bytes stay below the sign bit: the cleared number has
the same leading bytes. -/
theorem expMant_div_mul_of_low {x : Nat} (hpos : 0 < x)
    (hE : expMant x = (byteSize x, leadBytes x)) (hl : leadBytes x < 2 ^ 23) :
    expMant (x / 2 ^ (8 * (byteSize x - 3)) * 2 ^ (8 * (byteSize x - 3))) =
      (byteSize x, leadBytes x) := by
  by_cases hb : byteSize x ≤ 3
  · rw [show byteSize x - 3 = 0 by omega, Nat.mul_zero, Nat.pow_zero, Nat.div_one,
      Nat.mul_one, hE]
  -- the low bytes are cleared; the leading bytes are what is left
  have hlead : x / 2 ^ (8 * (byteSize x - 3)) = leadBytes x := (leadBytes_of_lt (by omega)).symm
  have hby := byteSize_div_mul (hlead ▸ leadBytes_pos hpos)
  have hly : leadBytes (x / 2 ^ (8 * (byteSize x - 3)) * 2 ^ (8 * (byteSize x - 3))) =
      leadBytes x := by
    rw [leadBytes_of_lt (by omega), hby, Nat.mul_div_cancel _ (Nat.two_pow_pos _), hlead]
  rw [expMant, if_neg (by omega), hby, hly]

/-- **Clearing the bits below the mantissa window keeps the compact form.** -/
theorem expMant_div_mul (x : Nat) :
    expMant (x / 2 ^ (8 * ((expMant x).1 - 3)) * 2 ^ (8 * ((expMant x).1 - 3))) = expMant x := by
  rcases Nat.eq_zero_or_pos x with rfl | hpos
  · simp
  rcases expMant_cases x with ⟨hE, hl⟩ | ⟨hE, hl⟩ <;> (rw [hE]; dsimp only)
  · exact expMant_div_mul_of_high hE hl
  · exact expMant_div_mul_of_low hpos hE hl

/-- **Decoding the compact form of a number and encoding it again, with the decoded sign,
gives the same word.** -/
theorem encode_magnitude_encode {x : Nat} (hx : x < 2 ^ 256) (neg : Bool) :
    encode (magnitude (encode x neg)) (magnitude (encode x neg) != 0 && signBit (encode x neg)) =
      encode x neg := by
  have hE := expMant_div_mul x
  rw [← magnitude_encode hx neg] at hE
  -- the decoded number is zero exactly when `x` is
  have hzero : (magnitude (encode x neg) != 0) = (x != 0) := by
    rw [Bool.eq_iff_iff, bne_iff_ne, bne_iff_ne, ne_eq, ne_eq, ← expMant_snd_eq_zero_iff, hE,
      expMant_snd_eq_zero_iff]
  set w := encode x neg with hw
  rw [encode, hE, hzero, hw, signBit_encode, encode]
  congr 1
  cases neg <;> cases (x != 0) <;> rfl

end Sumcoin.Compact
