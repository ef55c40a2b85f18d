import Sumcoin.Lib.Bits
import Sumcoin.Lib.ByteReader

/-!
# Bit streams: `BitStreamWriter` and `BitStreamReader` of `streams.h`

`BitStreamWriter` packs values into bytes from the top bit of each byte down: a partial byte
`m_buffer` holds `m_offset` bits in its high positions, and each round of `Write` fills it
with as many of the value's remaining bits as fit, sending it to the stream once it holds
eight.  `BitStreamReader` takes bytes from its stream one at a time and hands out their bits
in the same order.  Both are read here as lists of bits (`Bits` of `Lib/Bits.lean`): the
writer's bits are those of the bytes it has sent followed by the `m_offset` high bits of its
buffer, and `Write` appends the value's bits (`write_spec`); the reader's bits are the
`8 - m_offset` low bits of its buffer followed by those of the stream, and `Read` takes the
first ones off and returns the number they denote (`read_spec`).

The round formulas are the source's, over `UInt64` and `UInt8`: in `Write`,
`m_buffer |= (data << (64 - nbits)) >> (64 - 8 + m_offset)`, where the left shift drops the
bits of `data` above `nbits`; in `Read`, `data <<= bits` and
`data |= static_cast<uint8_t>(m_buffer << m_offset) >> (8 - bits)`.  Every shift count stays
below the width, so the model's shifts, which reduce their count modulo the width, are the
source's.  The counts `nbits` of the callers are never negative, so they are natural numbers
here and only the upper bound of the range check remains.

## Main definitions

* `BitStreamWriter`, `BitStreamWriter.write`, `BitStreamWriter.flush`, `BitStreamWriter.bits`.
* `BitStreamReader`, `BitStreamReader.read`, `BitStreamReader.bits`.
-/

namespace Sumcoin

/-- `BitStreamWriter`: the bytes sent to `m_ostream` so far, `m_buffer` and `m_offset`. -/
structure BitStreamWriter where
  ostream : List UInt8
  buffer : UInt8
  offset : Nat
  deriving DecidableEq, Repr

namespace BitStreamWriter

/-- `BitStreamWriter(ostream)`. -/
def ofStream (ostream : List UInt8) : BitStreamWriter := ⟨ostream, 0, 0⟩

/-- `Flush()`: the partial byte, padded with zero bits, goes to the stream. -/
def flush (w : BitStreamWriter) : BitStreamWriter :=
  if w.offset = 0 then w else ⟨w.ostream ++ [w.buffer], 0, 0⟩

/-- The `while (nbits > 0)` loop of `Write(data, nbits)`, with `fuel` for its rounds. -/
def writeLoop (data : UInt64) : (fuel : Nat) → BitStreamWriter → (nbits : Nat) → BitStreamWriter
  | 0, w, _ => w
  | fuel + 1, w, nbits =>
    if nbits > 0 then
      let bits := min (8 - w.offset) nbits
      let buffer :=
        (w.buffer.toUInt64 ||| ((data <<< (64 - nbits).toUInt64) >>> (64 - 8 + w.offset).toUInt64)).toUInt8
      let w := { w with buffer := buffer, offset := w.offset + bits }
      writeLoop data fuel (if w.offset = 8 then w.flush else w) (nbits - bits)
    else w

/-- `Write(data, nbits)`: the `nbits` low bits of `data`, most significant first.  Every
round writes at least one bit, so `nbits` rounds are enough. -/
def write (w : BitStreamWriter) (data : UInt64) (nbits : Nat) : Except String BitStreamWriter :=
  if nbits > 64 then .error "nbits must be between 0 and 64" else .ok (writeLoop data nbits w nbits)

/-- The bits written: those of the bytes sent, then the high `m_offset` bits of the buffer. -/
def bits (w : BitStreamWriter) : List Bool :=
  Bits.ofBytes w.ostream ++ (Bits.ofNat 8 w.buffer.toNat).take w.offset

/-- The partial byte holds fewer than eight bits and nothing below them. -/
structure Inv (w : BitStreamWriter) : Prop where
  offset_lt : w.offset < 8
  low_zero : ∀ j < 8 - w.offset, w.buffer.toNat.testBit j = false

theorem inv_ofStream (ostream : List UInt8) : Inv (ofStream ostream) :=
  ⟨Nat.succ_pos 7, fun j _ => Nat.zero_testBit j⟩

@[simp] theorem bits_ofStream (ostream : List UInt8) : (ofStream ostream).bits = Bits.ofBytes ostream := by
  simp [bits, ofStream]

/-! ## One round of `Write` -/

/-- The byte one round leaves, as a number. -/
theorem toNat_roundBuffer (b : UInt8) (data : UInt64) {o k : Nat} (ho : o < 8) (hk : 0 < k) (hk64 : k ≤ 64) :
    (b.toUInt64 ||| ((data <<< (64 - k).toUInt64) >>> (64 - 8 + o).toUInt64)).toUInt8.toNat =
      (b.toNat ||| (data.toNat <<< (64 - k) % 2 ^ 64) >>> (56 + o)) % 2 ^ 8 := by
  have h1 : (64 - k) % 2 ^ 64 % 64 = 64 - k := by omega
  have h2 : (64 - 8 + o) % 2 ^ 64 % 64 = 56 + o := by omega
  simp only [UInt64.toNat_toUInt8, UInt64.toNat_or, UInt8.toNat_toUInt64, UInt64.toNat_shiftRight,
    UInt64.toNat_shiftLeft, Nat.toUInt64_eq, UInt64.toNat_ofNat', h1, h2]

/-- **One round of `Write`**: the buffer keeps its `o` high bits and takes the next `c` bits of
the `k`-bit value below them, and nothing below those. -/
theorem round_bits {b data o k : Nat} (ho : o < 8) (hk : 0 < k) (hk64 : k ≤ 64)
    (hlow : ∀ j < 8 - o, b.testBit j = false) :
    (Bits.ofNat 8 ((b ||| (data <<< (64 - k) % 2 ^ 64) >>> (56 + o)) % 2 ^ 8)).take (o + min (8 - o) k) =
        (Bits.ofNat 8 b).take o ++ (Bits.ofNat k data).take (min (8 - o) k) ∧
      ∀ j < 8 - (o + min (8 - o) k), ((b ||| (data <<< (64 - k) % 2 ^ 64) >>> (56 + o)) % 2 ^ 8).testBit j = false := by
  -- bit `j` of the chunk is bit `j + o + k - 8` of `data`, where that is one of its low `k`
  have hchunk : ∀ j, ((data <<< (64 - k) % 2 ^ 64) >>> (56 + o)).testBit j =
      (decide (j < 8 - o) && decide (8 ≤ j + o + k) && data.testBit (j + o + k - 8)) := by
    intro j
    rw [Nat.testBit_shiftRight, Nat.testBit_mod_two_pow, Nat.testBit_shiftLeft]
    by_cases hj : j < 8 - o
    · by_cases hjk : 8 ≤ j + o + k
      · rw [decide_eq_true (by omega), decide_eq_true (by omega), decide_eq_true hj, decide_eq_true hjk,
          show 56 + o + j - (64 - k) = j + o + k - 8 by omega]
        rfl
      · rw [decide_eq_true (by omega), decide_eq_false (by omega), decide_eq_false hjk]
        simp
    · rw [decide_eq_false (by omega), decide_eq_false hj]
      rfl
  constructor
  · apply List.ext_getElem
    · simp only [List.length_take, Bits.length_ofNat, List.length_append]
      omega
    · intro p h1 h2
      simp only [List.length_take, Bits.length_ofNat] at h1
      rw [List.getElem_take, Bits.getElem_ofNat, Nat.testBit_mod_two_pow, decide_eq_true (by omega),
        Bool.true_and, Nat.testBit_or, hchunk]
      by_cases hp : p < o
      · rw [List.getElem_append_left (by simp; omega), List.getElem_take, Bits.getElem_ofNat,
          decide_eq_false (by omega), Bool.false_and, Bool.false_and, Bool.or_false]
      · rw [List.getElem_append_right (by simp; omega), List.getElem_take, Bits.getElem_ofNat,
          hlow _ (by omega), decide_eq_true (by omega), decide_eq_true (by omega), Bool.true_and, Bool.true_and,
          Bool.false_or]
        simp only [List.length_take, Bits.length_ofNat]
        congr 1
        omega
  · intro j hj
    rw [Nat.testBit_mod_two_pow, Nat.testBit_or, hlow j (by omega), hchunk,
      decide_eq_false (show ¬ 8 ≤ j + o + k by omega)]
    simp

/-- **One round of `Write`**: it keeps the invariant, appends the next bits of the value and
only appends to the stream. -/
theorem round_spec {w : BitStreamWriter} (hw : Inv w) (data : UInt64) {k : Nat} (hk : 0 < k) (hk64 : k ≤ 64) :
    let w' := { w with
      buffer := (w.buffer.toUInt64 ||| ((data <<< (64 - k).toUInt64) >>> (64 - 8 + w.offset).toUInt64)).toUInt8,
      offset := w.offset + min (8 - w.offset) k }
    Inv (if w'.offset = 8 then w'.flush else w') ∧
      (if w'.offset = 8 then w'.flush else w').bits = w.bits ++ (Bits.ofNat k data.toNat).take (min (8 - w.offset) k) ∧
      ∃ tail, (if w'.offset = 8 then w'.flush else w').ostream = w.ostream ++ tail := by
  obtain ⟨hlt, hlow⟩ := hw
  obtain ⟨hbits, hlow'⟩ := @round_bits _ data.toNat _ _ hlt hk hk64 hlow
  rw [← toNat_roundBuffer w.buffer data hlt hk hk64] at hbits hlow'
  dsimp only
  split_ifs with h8
  · -- the byte is full: it goes to the stream
    have h8' : w.offset + min (8 - w.offset) k = 8 := h8
    rw [flush, if_neg (by dsimp only; omega)]
    refine ⟨inv_ofStream _, ?_, ⟨_, rfl⟩⟩
    simp only [bits, Bits.ofBytes_append, Bits.ofBytes_cons, Bits.ofBytes_nil, List.append_nil, List.take_zero,
      List.append_assoc]
    rw [← hbits, h8', List.take_of_length_le (by simp)]
  · have h8' : w.offset + min (8 - w.offset) k ≠ 8 := h8
    exact ⟨⟨by dsimp only; omega, hlow'⟩, by rw [bits, bits, hbits, List.append_assoc], ⟨[], (List.append_nil _).symm⟩⟩

/-- **`Write`'s loop**: from a state keeping the invariant, with fuel for its rounds, it appends
the `nbits` low bits of the value. -/
theorem writeLoop_spec (data : UInt64) : ∀ (fuel : Nat) (w : BitStreamWriter) (k : Nat), Inv w → k ≤ fuel → k ≤ 64 →
    Inv (writeLoop data fuel w k) ∧ (writeLoop data fuel w k).bits = w.bits ++ Bits.ofNat k data.toNat ∧
      ∃ tail, (writeLoop data fuel w k).ostream = w.ostream ++ tail := by
  intro fuel
  induction fuel with
  | zero =>
    intro w k hw hk _
    obtain rfl : k = 0 := by omega
    exact ⟨hw, (List.append_nil _).symm, ⟨[], (List.append_nil _).symm⟩⟩
  | succ fuel ih =>
    intro w k hw hk hk64
    rw [writeLoop]
    split_ifs with hpos
    · obtain ⟨hw', hbits', tail, htail⟩ := round_spec hw data hpos hk64
      obtain ⟨hw'', hbits'', tail', htail'⟩ := ih _ (k - min (8 - w.offset) k) hw' (by have := hw.offset_lt; omega)
        (by omega)
      refine ⟨hw'', ?_, ⟨tail ++ tail', by rw [htail', htail, List.append_assoc]⟩⟩
      rw [hbits'', hbits', List.append_assoc, Bits.take_append_ofNat _ (Nat.min_le_right _ _)]
    · obtain rfl : k = 0 := by omega
      exact ⟨hw, (List.append_nil _).symm, ⟨[], (List.append_nil _).symm⟩⟩

/-- **`Write(data, nbits)`** appends the `nbits` low bits of `data`. -/
theorem write_spec {w : BitStreamWriter} (hw : Inv w) (data : UInt64) {k : Nat} (hk64 : k ≤ 64) :
    ∃ w', w.write data k = .ok w' ∧ Inv w' ∧ w'.bits = w.bits ++ Bits.ofNat k data.toNat ∧
      ∃ tail, w'.ostream = w.ostream ++ tail :=
  ⟨_, by rw [write, if_neg (by omega)], writeLoop_spec data k w k hw (Nat.le_refl k) hk64⟩

/-- **`Flush()`** sends the written bits, padded with zeros to a whole byte. -/
theorem flush_spec {w : BitStreamWriter} (hw : Inv w) :
    Bits.ofBytes w.flush.ostream = w.bits ++ List.replicate ((8 - w.offset) % 8) false ∧
      ∃ tail, w.flush.ostream = w.ostream ++ tail := by
  obtain ⟨hlt, hlow⟩ := hw
  rw [flush]
  split_ifs with h0
  · refine ⟨?_, ⟨[], (List.append_nil _).symm⟩⟩
    rw [bits, h0, List.take_zero, Nat.sub_zero, Nat.mod_self, List.replicate_zero, List.append_nil,
      List.append_nil]
  · refine ⟨?_, ⟨_, rfl⟩⟩
    rw [Bits.ofBytes_append, Bits.ofBytes_cons, Bits.ofBytes_nil, List.append_nil, bits, List.append_assoc,
      Nat.mod_eq_of_lt (by omega : 8 - w.offset < 8)]
    congr 1
    conv_lhs => rw [← List.take_append_drop w.offset (Bits.ofNat 8 w.buffer.toNat)]
    rw [Bits.drop_ofNat _ (by omega), Bits.ofNat_eq_replicate_false hlow]

end BitStreamWriter

/-- `BitStreamReader`: what is left of `m_istream`, `m_buffer` and `m_offset`. -/
structure BitStreamReader where
  istream : List UInt8
  buffer : UInt8
  offset : Nat
  deriving DecidableEq, Repr

namespace BitStreamReader

/-- `BitStreamReader(istream)`: no byte buffered yet. -/
def ofStream (istream : List UInt8) : BitStreamReader := ⟨istream, 0, 8⟩

/-- The top of a round of `Read`: `m_istream >> m_buffer` once the buffered byte is used up. -/
def refill (r : BitStreamReader) : Except String BitStreamReader :=
  if r.offset = 8 then
    match ByteReader.readByte r.istream with
    | .ok (b, istream) => .ok ⟨istream, b, 0⟩
    | .error e => .error e
  else .ok r

/-- The `while (nbits > 0)` loop of `Read(nbits)`, with `fuel` for its rounds. -/
def readLoop : (fuel : Nat) → BitStreamReader → (nbits : Nat) → UInt64 → Except String (UInt64 × BitStreamReader)
  | 0, r, _, data => .ok (data, r)
  | fuel + 1, r, nbits, data =>
    if nbits > 0 then
      match r.refill with
      | .error e => .error e
      | .ok r =>
        let bits := min (8 - r.offset) nbits
        let data := (data <<< bits.toUInt64) ||| ((r.buffer <<< r.offset.toUInt8) >>> (8 - bits).toUInt8).toUInt64
        readLoop fuel { r with offset := r.offset + bits } (nbits - bits) data
    else .ok (data, r)

/-- `Read(nbits)`: the next `nbits` bits as a number.  Every round reads at least one bit, so
`nbits` rounds are enough. -/
def read (r : BitStreamReader) (nbits : Nat) : Except String (UInt64 × BitStreamReader) :=
  if nbits > 64 then .error "nbits must be between 0 and 64" else readLoop nbits r nbits 0

/-- The bits left to read: the low `8 - m_offset` bits of the buffer, then the stream's. -/
def bits (r : BitStreamReader) : List Bool :=
  (Bits.ofNat 8 r.buffer.toNat).drop r.offset ++ Bits.ofBytes r.istream

/-- At most the whole buffered byte is used up. -/
def Inv (r : BitStreamReader) : Prop := r.offset ≤ 8

theorem inv_ofStream (istream : List UInt8) : Inv (ofStream istream) := Nat.le_refl 8

@[simp] theorem bits_ofStream (istream : List UInt8) : (ofStream istream).bits = Bits.ofBytes istream := by
  rw [bits, ofStream, List.drop_of_length_le (by simp), List.nil_append]

/-- With bits left, the refill leaves a byte in the buffer with the same bits to read. -/
theorem refill_spec {r : BitStreamReader} (hr : Inv r) (hbits : r.bits ≠ []) :
    ∃ r', r.refill = .ok r' ∧ r'.offset < 8 ∧ r'.bits = r.bits := by
  rw [refill]
  split_ifs with h8
  · rcases hs : r.istream with _ | ⟨b, istream⟩
    · rw [bits, h8, hs, List.drop_of_length_le (by simp)] at hbits
      exact absurd rfl hbits
    · refine ⟨⟨istream, b, 0⟩, by rw [ByteReader.readByte_cons], Nat.succ_pos 7, ?_⟩
      rw [bits, bits, h8, hs, List.drop_zero, List.drop_of_length_le (by simp), List.nil_append,
        Bits.ofBytes_cons]
  · exact ⟨r, rfl, by unfold Inv at hr; omega, rfl⟩

/-- **One round of `Read`**: the `c` bits below the `o` used ones of the buffer, as a number. -/
theorem toNat_roundChunk (b : UInt8) {o c : Nat} (ho : o < 8) (hc : 0 < c) (hco : c ≤ 8 - o) :
    ((b <<< o.toUInt8) >>> (8 - c).toUInt8).toUInt64.toNat = Bits.toNat (((Bits.ofNat 8 b.toNat).drop o).take c) := by
  have h1 : o.toUInt8.toNat % 8 = o := by rw [Nat.toUInt8_eq, UInt8.toNat_ofNat']; omega
  have h2 : (8 - c).toUInt8.toNat % 8 = 8 - c := by rw [Nat.toUInt8_eq, UInt8.toNat_ofNat']; omega
  rw [UInt8.toNat_toUInt64, UInt8.toNat_shiftRight, UInt8.toNat_shiftLeft, h1, h2]
  -- the chunk is the reading of its own `c` bits, which are those of the buffer below `o`
  have hlt : ((b.toNat <<< o) % 2 ^ 8) >>> (8 - c) < 2 ^ c := by
    rw [Nat.shiftRight_eq_div_pow, Nat.div_lt_iff_lt_mul (Nat.two_pow_pos _), ← pow_add,
      show c + (8 - c) = 8 by omega]
    exact Nat.mod_lt _ (Nat.two_pow_pos 8)
  have hread : Bits.ofNat c (((b.toNat <<< o) % 2 ^ 8) >>> (8 - c)) = ((Bits.ofNat 8 b.toNat).drop o).take c := by
    apply List.ext_getElem
    · simp only [Bits.length_ofNat, List.length_take, List.length_drop]
      omega
    · intro p h1 h2
      simp only [Bits.length_ofNat] at h1
      rw [Bits.getElem_ofNat, List.getElem_take, List.getElem_drop, Bits.getElem_ofNat, Nat.testBit_shiftRight,
        Nat.testBit_mod_two_pow, Nat.testBit_shiftLeft, decide_eq_true (by omega), decide_eq_true (by omega),
        Bool.true_and, Bool.true_and]
      congr 1
      omega
  rw [← hread, Bits.toNat_ofNat, Nat.mod_eq_of_lt hlt]

/-- The value after a round: the value so far shifted up by `c`, with the chunk below. -/
theorem toNat_roundData (data : UInt64) (b : UInt8) {o c m : Nat} (ho : o < 8) (hc : 0 < c) (hco : c ≤ 8 - o)
    (hdata : data.toNat < 2 ^ m) (hm : m + c ≤ 64) :
    ((data <<< c.toUInt64) ||| ((b <<< o.toUInt8) >>> (8 - c).toUInt8).toUInt64).toNat =
      data.toNat * 2 ^ c + Bits.toNat (((Bits.ofNat 8 b.toNat).drop o).take c) := by
  have hlt := Bits.toNat_lt (((Bits.ofNat 8 b.toNat).drop o).take c)
  rw [List.length_take, List.length_drop, Bits.length_ofNat, min_eq_left hco] at hlt
  have hshift : c.toUInt64.toNat % 64 = c := by
    rw [Nat.toUInt64_eq, UInt64.toNat_ofNat']
    omega
  have hnowrap : data.toNat * 2 ^ c < 2 ^ 64 :=
    calc data.toNat * 2 ^ c < 2 ^ m * 2 ^ c := Nat.mul_lt_mul_of_pos_right hdata (Nat.two_pow_pos _)
      _ = 2 ^ (m + c) := (pow_add _ _ _).symm
      _ ≤ 2 ^ 64 := Nat.pow_le_pow_right (by omega) hm
  rw [UInt64.toNat_or, UInt64.toNat_shiftLeft, hshift, toNat_roundChunk b ho hc hco, Nat.shiftLeft_eq,
    Nat.mod_eq_of_lt hnowrap, ← Nat.shiftLeft_eq, ← Nat.shiftLeft_add_eq_or_of_lt hlt, Nat.shiftLeft_eq]

/-- **`Read`'s loop**: with fuel for its rounds and enough bits left, it takes the next `k`
bits off and shifts them into the value read so far. -/
theorem readLoop_spec : ∀ (fuel : Nat) (r : BitStreamReader) (k : Nat) (data : UInt64) (m : Nat),
    Inv r → k ≤ fuel → k ≤ r.bits.length → data.toNat < 2 ^ m → m + k ≤ 64 →
    ∃ v r', readLoop fuel r k data = .ok (v, r') ∧ v.toNat = data.toNat * 2 ^ k + Bits.toNat (r.bits.take k) ∧
      Inv r' ∧ r'.bits = r.bits.drop k := by
  intro fuel
  induction fuel with
  | zero =>
    intro r k data m hr hk _ _ _
    obtain rfl : k = 0 := by omega
    exact ⟨data, r, rfl, by simp, hr, rfl⟩
  | succ fuel ih =>
    intro r k data m hr hk hlen hdata hm
    rw [readLoop]
    split_ifs with hpos
    · obtain ⟨r1, hr1, ho1, hbits1⟩ := refill_spec hr (by intro h; rw [h] at hlen; simp at hlen; omega)
      rw [hr1]
      dsimp only
      rw [← hbits1] at hlen ⊢
      -- this round takes `c` bits, all from the buffered byte
      generalize hc : min (8 - r1.offset) k = c
      have hck : c ≤ k := by omega
      have hfirst : r1.bits.take c = ((Bits.ofNat 8 r1.buffer.toNat).drop r1.offset).take c := by
        rw [bits, List.take_append_of_le_length (by simp; omega)]
      have hnext : ({ r1 with offset := r1.offset + c } : BitStreamReader).bits = r1.bits.drop c := by
        rw [bits, bits, List.drop_append_of_le_length (by simp; omega), List.drop_drop, Nat.add_comm]
      have hdata' := toNat_roundData data r1.buffer ho1 (by omega) (by omega) hdata (show m + c ≤ 64 by omega)
      rw [← hfirst] at hdata'
      have hchunk := Bits.toNat_lt (r1.bits.take c)
      rw [List.length_take, min_eq_left (by omega)] at hchunk
      obtain ⟨v, r', hrun, hv, hr', hbits'⟩ := ih { r1 with offset := r1.offset + c } (k - c) _ (m + c)
        (show r1.offset + c ≤ 8 by omega) (by omega)
        (by rw [hnext, List.length_drop]; omega)
        (by rw [hdata', pow_add]; nlinarith)
        (by omega)
      refine ⟨v, r', hrun, ?_, hr', ?_⟩
      · -- the bits of this round, then those of the rounds after it
        have hsplit : Bits.toNat (r1.bits.take k) =
            Bits.toNat (r1.bits.take c) * 2 ^ (k - c) + Bits.toNat ((r1.bits.drop c).take (k - c)) := by
          conv_lhs => rw [show k = c + (k - c) by omega, List.take_add, Bits.toNat_append]
          rw [List.length_take, List.length_drop, min_eq_left (by omega)]
        rw [hv, hdata', hnext, hsplit, show 2 ^ k = 2 ^ c * 2 ^ (k - c) by rw [← pow_add]; congr 1; omega]
        ring
      · rw [hbits', hnext, List.drop_drop, Nat.add_sub_cancel' hck]
    · obtain rfl : k = 0 := by omega
      exact ⟨data, r, rfl, by simp, hr, rfl⟩

/-- **`Read(nbits)`** returns the number the next `nbits` bits denote and takes them off. -/
theorem read_spec {r : BitStreamReader} (hr : Inv r) {k : Nat} (hk64 : k ≤ 64) (hlen : k ≤ r.bits.length) :
    ∃ v r', r.read k = .ok (v, r') ∧ v.toNat = Bits.toNat (r.bits.take k) ∧ Inv r' ∧ r'.bits = r.bits.drop k := by
  obtain ⟨v, r', hrun, hv, hr', hbits'⟩ := readLoop_spec k r k 0 0 hr (Nat.le_refl k) hlen (by decide) (by omega)
  refine ⟨v, r', by rw [read, if_neg (by omega), hrun], by rw [hv]; simp, hr', hbits'⟩

end BitStreamReader

end Sumcoin
