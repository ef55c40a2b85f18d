import Sumcoin.Util.BlockFilter
import Sumcoin.Lib.SipHash
import Sumcoin.Primitives.Streams
import Sumcoin.Primitives.Unserialize
import Sumcoin.Lib.Except

/-!
# Golomb-coded sets: `GCSFilter` of `blockfilter.cpp`

A Golomb-coded set stores a set of `N` byte strings as the sorted list of their hashes in
`[0, N * M)`: each element is hashed with SipHash and mapped into the range
(`HashToRange`), the values are sorted, and the differences of neighbouring values are
written as Golomb-Rice codes with parameter `P` (a quotient `x >> P` in unary, a zero bit,
the `P` low bits of `x`) through a `BitStreamWriter`, after the count `N`.  A filter read
back from bytes is checked by decoding its `N` codes and finding nothing left after them.
`MatchInternal` walks the running sum of the decoded differences against a sorted list of
queried values, advancing in whichever list is behind.

The codes are compared with their bits (`riceCode`): the writer appends them
(`golombRiceEncode_spec`), the reader takes them back (`golombRiceDecode_spec`), so the
bytes of a filter decode to the differences it encoded and their running sums are the
sorted values.  A shift by `P ≥ 64` is undefined behaviour in the source (`x >> P`, `q << P`),
which the model reports as an error.

## Main definitions

* `GCSParams`, `GCSFilter`, `GCSFilter.ofElements`, `GCSFilter.ofEncoded`.
* `GCSFilter.golombRiceEncode`, `GCSFilter.golombRiceDecode`.
* `GCSFilter.matchInternal`, `GCSFilter.match'`, `GCSFilter.matchAny`.
-/

namespace Sumcoin

/-- `GCSFilter::Params`. -/
structure GCSParams where
  siphashK0 : UInt64
  siphashK1 : UInt64
  P : UInt8
  M : UInt32
  deriving DecidableEq, Repr

/-- `GCSFilter`: its parameters, `m_N`, `m_F` and `m_encoded`. -/
structure GCSFilter where
  params : GCSParams
  N : UInt32
  F : UInt64
  encoded : List UInt8
  deriving DecidableEq, Repr

namespace GCSFilter

/-! ## Golomb-Rice codes -/

/-- The quotient loop of `GolombRiceEncode`: `q` one bits, at most 64 to a `Write`, with
`fuel` for the rounds. -/
def unaryEncode : (fuel : Nat) → BitStreamWriter → UInt64 → Except String BitStreamWriter
  | 0, w, _ => .ok w
  | fuel + 1, w, q =>
    if q > 0 then
      let nbits := if q ≤ 64 then q.toNat else 64
      match w.write (~~~0) nbits with
      | .ok w => unaryEncode fuel w (q - nbits.toUInt64)
      | .error e => .error e
    else .ok w

/-- `GolombRiceEncode(bitwriter, P, x)`: the quotient `x >> P` in unary, a zero bit, and the
`P` low bits of `x`.  Every round of the quotient loop writes a bit, so `x >> P` rounds are
enough. -/
def golombRiceEncode (w : BitStreamWriter) (P : UInt8) (x : UInt64) : Except String BitStreamWriter :=
  if 64 ≤ P.toNat then .error "undefined behaviour: x >> P with P >= 64"
  else do
    let q := x >>> P.toUInt64
    let w ← unaryEncode q.toNat w q
    let w ← w.write 0 1
    w.write x P.toNat

/-- The quotient loop of `GolombRiceDecode`: `while (bitreader.Read(1) == 1) ++q;`, with
`fuel` for the rounds. -/
def unaryDecode : (fuel : Nat) → BitStreamReader → UInt64 → Except String (UInt64 × BitStreamReader)
  | 0, _, _ => .error "end of data"
  | fuel + 1, r, q => do
    let (bit, r) ← r.read 1
    if bit = 1 then unaryDecode fuel r (q + 1) else pure (q, r)

/-- `GolombRiceDecode(bitreader, P)`.  Every round of the quotient loop reads a bit and a read
past the last bit fails, so one round more than the bits left is enough. -/
def golombRiceDecode (r : BitStreamReader) (P : UInt8) : Except String (UInt64 × BitStreamReader) := do
  let (q, r) ← unaryDecode (8 * r.istream.length + 9) r 0
  let (rem, r) ← r.read P.toNat
  if 64 ≤ P.toNat then throw "undefined behaviour: q << P with P >= 64"
  pure ((q <<< P.toUInt64) + rem, r)

/-! ## Building a filter -/

/-- `HashToRange(element)`: the element's SipHash mapped into `[0, F)`. -/
def hashToRange (params : GCSParams) (F : UInt64) (element : List UInt8) : UInt64 :=
  BlockFilter.mapIntoRangeInt128 (SipHash.hashBytes params.siphashK0 params.siphashK1 element) F

/-- `BuildHashedSet(elements)`: the hashes of the elements, sorted. -/
def buildHashedSet (params : GCSParams) (F : UInt64) (elements : List (List UInt8)) : List UInt64 :=
  (elements.map (hashToRange params F)).mergeSort fun a b => decide (a ≤ b)

/-- The loop of `GCSFilter(params, elements)`: each value coded as its difference from the one
before. -/
def encodeDeltas (P : UInt8) : BitStreamWriter → UInt64 → List UInt64 → Except String BitStreamWriter
  | w, _, [] => .ok w
  | w, lastValue, value :: values => do
    let w ← golombRiceEncode w P (value - lastValue)
    encodeDeltas P w value values

/-- `GCSFilter(params, elements)`; the elements of the set are listed once each. -/
def ofElements (params : GCSParams) (elements : List (List UInt8)) : Except String GCSFilter := do
  if 2 ^ 32 ≤ elements.length then throw "N must be <2^32"
  let N := elements.length.toUInt32
  let F := N.toUInt64 * params.M.toUInt64
  let encoded := Ser.compactSize N.toNat
  if elements.isEmpty then return ⟨params, N, F, encoded⟩
  let w ← encodeDeltas params.P (BitStreamWriter.ofStream encoded) 0 (buildHashedSet params F elements)
  return ⟨params, N, F, w.flush.ostream⟩

/-! ## Reading a filter back -/

/-- The check loop of `GCSFilter(params, encoded_filter)`: `n` codes decoded and dropped. -/
def decodeN (P : UInt8) : Nat → BitStreamReader → Except String BitStreamReader
  | 0, r => .ok r
  | n + 1, r => do
    let (_, r) ← golombRiceDecode r P
    decodeN P n r

/-- `GCSFilter(params, encoded_filter)`: the count, exactly that many codes, and nothing after
them but the padding of the last byte. -/
def ofEncoded (params : GCSParams) (encoded : List UInt8) : Except String GCSFilter := do
  let (N, rest) ← Unser.readCompactSize encoded
  if 2 ^ 32 ≤ N then throw "N must be <2^32"
  let N := N.toUInt32
  let F := N.toUInt64 * params.M.toUInt64
  let r ← decodeN params.P N.toNat (BitStreamReader.ofStream rest)
  if r.istream ≠ [] then throw "encoded_filter contains excess data"
  return ⟨params, N, F, encoded⟩

/-! ## Queries -/

/-- The inner `while (true)` loop of `MatchInternal` at the decoded `value`: the queries below
it are passed over; `inl` is what the function returns, `inr` the queries left at `break`. -/
def skipQueries (value : UInt64) : List UInt64 → Bool ⊕ List UInt64
  | [] => .inl false
  | h :: hs => if h = value then .inl true else if h > value then .inr (h :: hs) else skipQueries value hs

/-- The outer loop of `MatchInternal`, over the `i` codes left, with the running `value`. -/
def matchLoop (P : UInt8) : (i : Nat) → BitStreamReader → UInt64 → List UInt64 → Except String Bool
  | 0, _, _, _ => .ok false
  | i + 1, r, value, hashes => do
    let (delta, r) ← golombRiceDecode r P
    let value := value + delta
    match skipQueries value hashes with
    | .inl b => pure b
    | .inr hashes => matchLoop P i r value hashes

/-- `MatchInternal(element_hashes, size)`, on sorted queries. -/
def matchInternal (f : GCSFilter) (elementHashes : List UInt64) : Except String Bool := do
  let (N, rest) ← Unser.readCompactSize f.encoded
  if N ≠ f.N.toNat then throw "assertion N == m_N failed"
  matchLoop f.params.P f.N.toNat (BitStreamReader.ofStream rest) 0 elementHashes

/-- `Match(element)`. -/
def match' (f : GCSFilter) (element : List UInt8) : Except String Bool :=
  f.matchInternal [hashToRange f.params f.F element]

/-- `MatchAny(elements)`. -/
def matchAny (f : GCSFilter) (elements : List (List UInt8)) : Except String Bool :=
  f.matchInternal (buildHashedSet f.params f.F elements)

/-! ## Codes as bits -/

/-- The bits of the Golomb-Rice code of `x`: `x >> P` ones, a zero, the `P` low bits of `x`. -/
def riceCode (P : Nat) (x : UInt64) : List Bool :=
  List.replicate (x.toNat >>> P) true ++ false :: Bits.ofNat P x.toNat

/-- The differences of neighbouring values, from `last` on. -/
def deltas : UInt64 → List UInt64 → List UInt64
  | _, [] => []
  | last, value :: values => (value - last) :: deltas value values

/-- The running sums of the differences, from `value` on. -/
def sums : UInt64 → List UInt64 → List UInt64
  | _, [] => []
  | value, delta :: ds => (value + delta) :: sums (value + delta) ds

@[simp] theorem length_deltas (last : UInt64) (values : List UInt64) : (deltas last values).length = values.length := by
  induction values generalizing last with
  | nil => rfl
  | cons value values ih => rw [deltas, List.length_cons, ih, List.length_cons]

/-- Summing the differences gives the values back, in `UInt64` arithmetic whatever their order. -/
theorem sums_deltas (last : UInt64) (values : List UInt64) : sums last (deltas last values) = values := by
  induction values generalizing last with
  | nil => rfl
  | cons value values ih => rw [deltas, sums, add_sub_cancel, ih]

theorem length_riceCode (P : Nat) (x : UInt64) : (riceCode P x).length = (x.toNat >>> P) + 1 + P := by
  simp [riceCode]
  omega

/-! ## Writing codes -/

section Encode

open BitStreamWriter

/-- The quotient loop writes `q` one bits. -/
theorem unaryEncode_spec : ∀ (fuel : Nat) (w : BitStreamWriter) (q : UInt64), w.Inv → q.toNat ≤ fuel →
    ∃ w', unaryEncode fuel w q = .ok w' ∧ w'.Inv ∧ w'.bits = w.bits ++ List.replicate q.toNat true ∧
      ∃ tail, w'.ostream = w.ostream ++ tail := by
  intro fuel
  induction fuel with
  | zero =>
    intro w q hw hq
    exact ⟨w, rfl, hw, by rw [show q.toNat = 0 by omega]; simp, ⟨[], (List.append_nil _).symm⟩⟩
  | succ fuel ih =>
    intro w q hw hq
    rw [unaryEncode]
    by_cases hpos : q > 0
    · -- a round writes `nbits` ones, all of `q` or 64 of them
      rw [if_pos hpos]
      dsimp only
      have hpos' : 0 < q.toNat := UInt64.lt_iff_toNat_lt.mp hpos
      generalize hn : (if q ≤ 64 then q.toNat else 64) = nbits
      have hnq : nbits ≤ q.toNat ∧ 0 < nbits ∧ nbits ≤ 64 := by
        rw [← hn]
        by_cases h64 : q ≤ 64
        · rw [if_pos h64]
          exact ⟨Nat.le_refl _, hpos', UInt64.le_iff_toNat_le.mp h64⟩
        · rw [if_neg h64]
          have : ¬ q.toNat ≤ 64 := fun h => h64 (UInt64.le_iff_toNat_le.mpr h)
          exact ⟨by omega, by decide, Nat.le_refl _⟩
      obtain ⟨w1, hw1, hinv1, hbits1, tail1, htail1⟩ := write_spec hw (~~~0) hnq.2.2
      have hq' : (q - nbits.toUInt64).toNat = q.toNat - nbits := by
        have hle : nbits.toUInt64 ≤ q := by
          rw [UInt64.le_iff_toNat_le, Nat.toUInt64_eq, UInt64.toNat_ofNat']
          omega
        rw [UInt64.toNat_sub_of_le _ _ hle, Nat.toUInt64_eq, UInt64.toNat_ofNat', Nat.mod_eq_of_lt (by omega)]
      obtain ⟨w2, hw2, hinv2, hbits2, tail2, htail2⟩ := ih w1 (q - nbits.toUInt64) hinv1 (by omega)
      refine ⟨w2, by rw [hw1]; exact hw2, hinv2, ?_, ⟨tail1 ++ tail2, by rw [htail2, htail1, List.append_assoc]⟩⟩
      have hones : Bits.ofNat nbits (~~~(0 : UInt64)).toNat = List.replicate nbits true :=
        Bits.ofNat_eq_replicate_true fun i hi => by
          rw [UInt64.toNat_not, show UInt64.size - 1 - (0 : UInt64).toNat = 2 ^ 64 - 1 by decide,
            Nat.testBit_two_pow_sub_one, decide_eq_true (by omega)]
      rw [hbits2, hbits1, hones, hq', List.append_assoc, ← List.replicate_add, Nat.add_sub_cancel' hnq.1]
    · rw [if_neg hpos]
      have hq0 : q.toNat = 0 := by
        have : ¬ 0 < q.toNat := fun h => hpos (UInt64.lt_iff_toNat_lt.mpr h)
        omega
      exact ⟨w, rfl, hw, by rw [hq0]; simp, ⟨[], (List.append_nil _).symm⟩⟩

/-- **`GolombRiceEncode`** appends the code's bits, for `P < 64`. -/
theorem golombRiceEncode_spec {w : BitStreamWriter} (hw : w.Inv) {P : UInt8} (hP : P.toNat < 64) (x : UInt64) :
    ∃ w', golombRiceEncode w P x = .ok w' ∧ w'.Inv ∧ w'.bits = w.bits ++ riceCode P.toNat x ∧
      ∃ tail, w'.ostream = w.ostream ++ tail := by
  have hq : (x >>> P.toUInt64).toNat = x.toNat >>> P.toNat := by
    rw [UInt64.toNat_shiftRight, UInt8.toNat_toUInt64, Nat.mod_eq_of_lt hP]
  obtain ⟨w1, h1, hinv1, hbits1, tail1, htail1⟩ := unaryEncode_spec _ w (x >>> P.toUInt64) hw (Nat.le_refl _)
  obtain ⟨w2, h2, hinv2, hbits2, tail2, htail2⟩ := write_spec hinv1 0 (k := 1) (by decide)
  obtain ⟨w3, h3, hinv3, hbits3, tail3, htail3⟩ := write_spec hinv2 x (k := P.toNat) (by omega)
  refine ⟨w3, ?_, hinv3, ?_, ⟨tail1 ++ tail2 ++ tail3, by rw [htail3, htail2, htail1]; simp⟩⟩
  · rw [golombRiceEncode, if_neg (by omega)]
    dsimp only
    rw [h1, Except.ok_bind, h2, Except.ok_bind, h3]
  · rw [hbits3, hbits2, hbits1, hq, riceCode]
    simp

/-- **The loop of `GCSFilter(params, elements)`** appends the codes of the differences. -/
theorem encodeDeltas_spec {P : UInt8} (hP : P.toNat < 64) : ∀ (values : List UInt64) (w : BitStreamWriter) (last : UInt64),
    w.Inv → ∃ w', encodeDeltas P w last values = .ok w' ∧ w'.Inv ∧
      w'.bits = w.bits ++ (deltas last values).flatMap (riceCode P.toNat) ∧ ∃ tail, w'.ostream = w.ostream ++ tail := by
  intro values
  induction values with
  | nil => exact fun w _ hw => ⟨w, rfl, hw, by simp [deltas], ⟨[], (List.append_nil _).symm⟩⟩
  | cons value values ih =>
    intro w last hw
    obtain ⟨w1, h1, hinv1, hbits1, tail1, htail1⟩ := golombRiceEncode_spec hw hP (value - last)
    obtain ⟨w2, h2, hinv2, hbits2, tail2, htail2⟩ := ih w1 value hinv1
    refine ⟨w2, by rw [encodeDeltas, h1, Except.ok_bind, h2], hinv2, ?_,
      ⟨tail1 ++ tail2, by rw [htail2, htail1, List.append_assoc]⟩⟩
    rw [hbits2, hbits1, deltas, List.flatMap_cons, List.append_assoc]

theorem toNat_toUInt32_of_lt {n : Nat} (h : n < 2 ^ 32) : n.toUInt32.toNat = n := by
  rw [Nat.toUInt32_eq, UInt32.toNat_ofNat', Nat.mod_eq_of_lt h]

/-- **`GCSFilter(params, elements)`** for `P < 64`: the count, then the codes of the
differences of the sorted hashes, padded with zero bits to a whole byte. -/
theorem ofElements_spec {params : GCSParams} (hP : params.P.toNat < 64) {elements : List (List UInt8)}
    (hN : elements.length < 2 ^ 32) :
    ∃ tail, ofElements params elements = .ok ⟨params, elements.length.toUInt32,
        elements.length.toUInt32.toUInt64 * params.M.toUInt64, Ser.compactSize elements.length ++ tail⟩ ∧
      ∃ pad < 8, Bits.ofBytes tail =
        (deltas 0 (buildHashedSet params (elements.length.toUInt32.toUInt64 * params.M.toUInt64) elements)).flatMap
          (riceCode params.P.toNat) ++ List.replicate pad false := by
  rw [ofElements]
  simp only [show ¬ 2 ^ 32 ≤ elements.length by omega, if_false, toNat_toUInt32_of_lt hN]
  rcases elements with _ | ⟨e, es⟩
  · -- no elements: the count alone
    exact ⟨[], rfl, 0, by decide, by simp [buildHashedSet, deltas]⟩
  · obtain ⟨w, hw, hinv, hbits, tail1, htail1⟩ := encodeDeltas_spec hP
      (buildHashedSet params ((e :: es).length.toUInt32.toUInt64 * params.M.toUInt64) (e :: es))
      (BitStreamWriter.ofStream (Ser.compactSize (e :: es).length)) 0 (BitStreamWriter.inv_ofStream _)
    obtain ⟨hflush, tail2, htail2⟩ := BitStreamWriter.flush_spec hinv
    refine ⟨tail1 ++ tail2, ?_, (8 - w.offset) % 8, Nat.mod_lt _ (by decide), ?_⟩
    · rw [if_neg (by simp), hw, Except.ok_bind, htail2, htail1, List.append_assoc]
      rfl
    · rw [htail2, htail1, hbits, BitStreamWriter.bits_ofStream] at hflush
      change Bits.ofBytes (Ser.compactSize _ ++ tail1 ++ tail2) = _ at hflush
      rw [List.append_assoc, Bits.ofBytes_append, List.append_assoc] at hflush
      exact List.append_cancel_left hflush

end Encode

/-! ## Reading codes -/

section Decode

open BitStreamReader

theorem length_bits (r : BitStreamReader) : r.bits.length = 8 - r.offset + 8 * r.istream.length := by
  simp [bits]

/-- A read of one bit returns it. -/
theorem read_one {r : BitStreamReader} (hr : r.Inv) {b : Bool} {rest : List Bool} (hbits : r.bits = b :: rest) :
    ∃ r', r.read 1 = .ok (if b then 1 else 0, r') ∧ r'.Inv ∧ r'.bits = rest := by
  obtain ⟨v, r', hread, hv, hr', hbits'⟩ := read_spec hr (k := 1) (by decide) (by rw [hbits]; simp)
  refine ⟨r', ?_, hr', by rw [hbits', hbits, List.drop_one, List.tail_cons]⟩
  have hv' : v = if b then 1 else 0 := by
    apply UInt64.toNat_inj.mp
    rw [hv, hbits]
    cases b <;> rfl
  rw [hread, hv']

/-- The quotient loop reads `n` one bits and the zero after them, with fuel for them. -/
theorem unaryDecode_spec : ∀ (n fuel : Nat) (r : BitStreamReader) (q : UInt64) (rest : List Bool), r.Inv → n < fuel →
    r.bits = List.replicate n true ++ false :: rest →
    ∃ r', unaryDecode fuel r q = .ok (q + n.toUInt64, r') ∧ r'.Inv ∧ r'.bits = rest := by
  intro n
  induction n with
  | zero =>
    intro fuel r q rest hr hfuel hbits
    obtain ⟨fuel, rfl⟩ : ∃ f, fuel = f + 1 := ⟨fuel - 1, by omega⟩
    obtain ⟨r', hread, hr', hbits'⟩ := read_one hr (by rw [hbits]; rfl)
    refine ⟨r', ?_, hr', hbits'⟩
    rw [unaryDecode, hread, Except.ok_bind]
    simp
  | succ n ih =>
    intro fuel r q rest hr hfuel hbits
    obtain ⟨fuel, rfl⟩ : ∃ f, fuel = f + 1 := ⟨fuel - 1, by omega⟩
    obtain ⟨r', hread, hr', hbits'⟩ := read_one hr (by rw [hbits, List.replicate_succ, List.cons_append])
    obtain ⟨r'', hloop, hr'', hbits''⟩ := ih fuel r' (q + 1) rest hr' (by omega) hbits'
    refine ⟨r'', ?_, hr'', hbits''⟩
    rw [unaryDecode, hread, Except.ok_bind]
    simp only [ite_true]
    rw [hloop, add_assoc, Nat.toUInt64_eq, Nat.toUInt64_eq, UInt64.ofNat_add, UInt64.ofNat_one, add_comm 1]

/-- **`GolombRiceDecode`** reads a code back, for `P < 64`. -/
theorem golombRiceDecode_spec {r : BitStreamReader} (hr : r.Inv) {P : UInt8} (hP : P.toNat < 64) (x : UInt64)
    {rest : List Bool} (hbits : r.bits = riceCode P.toNat x ++ rest) :
    ∃ r', golombRiceDecode r P = .ok (x, r') ∧ r'.Inv ∧ r'.bits = rest := by
  have hlen := length_bits r
  rw [hbits, List.length_append, length_riceCode] at hlen
  obtain ⟨r1, h1, hr1, hbits1⟩ := unaryDecode_spec (x.toNat >>> P.toNat) (8 * r.istream.length + 9) r 0
    (Bits.ofNat P.toNat x.toNat ++ rest) hr (by unfold BitStreamReader.Inv at hr; omega)
    (by rw [hbits, riceCode, List.append_assoc, List.cons_append])
  obtain ⟨v, r2, h2, hv, hr2, hbits2⟩ := read_spec hr1 (k := P.toNat) (by omega) (by rw [hbits1]; simp)
  rw [hbits1, List.take_left' (Bits.length_ofNat _ _), Bits.toNat_ofNat] at hv
  rw [hbits1, List.drop_left' (Bits.length_ofNat _ _)] at hbits2
  refine ⟨r2, ?_, hr2, hbits2⟩
  -- the quotient shifted back up, plus the remainder, is `x`
  have hx : (0 + (x.toNat >>> P.toNat).toUInt64) <<< P.toUInt64 + v = x := by
    apply UInt64.toNat_inj.mp
    have hxlt := x.toNat_lt
    have hq : x.toNat >>> P.toNat < 2 ^ 64 := lt_of_le_of_lt (Nat.shiftRight_le _ _) hxlt
    have hsplit : x.toNat / 2 ^ P.toNat * 2 ^ P.toNat + x.toNat % 2 ^ P.toNat = x.toNat := Nat.div_add_mod' _ _
    rw [UInt64.toNat_add, UInt64.toNat_shiftLeft, zero_add, Nat.toUInt64_eq, UInt64.toNat_ofNat',
      Nat.mod_eq_of_lt hq, UInt8.toNat_toUInt64, Nat.mod_eq_of_lt hP, hv, Nat.shiftRight_eq_div_pow,
      Nat.shiftLeft_eq, Nat.mod_eq_of_lt (show x.toNat / 2 ^ P.toNat * 2 ^ P.toNat < 2 ^ 64 by omega), hsplit,
      Nat.mod_eq_of_lt hxlt]
  rw [golombRiceDecode, h1, Except.ok_bind]
  dsimp only
  rw [h2, Except.ok_bind]
  dsimp only
  rw [if_neg (by omega), hx]
  rfl

/-- The first of a run of codes is read, and the reader stands at the others. -/
theorem golombRiceDecode_cons {r : BitStreamReader} (hr : r.Inv) {P : UInt8} (hP : P.toNat < 64) {d : UInt64}
    {ds : List UInt64} {rest : List Bool} (hbits : r.bits = (d :: ds).flatMap (riceCode P.toNat) ++ rest) :
    ∃ r', golombRiceDecode r P = .ok (d, r') ∧ r'.Inv ∧ r'.bits = ds.flatMap (riceCode P.toNat) ++ rest :=
  golombRiceDecode_spec hr hP d (by rw [hbits, List.flatMap_cons, List.append_assoc])

/-- The check loop of `GCSFilter(params, encoded_filter)` reads the codes of `ds`. -/
theorem decodeN_spec {P : UInt8} (hP : P.toNat < 64) : ∀ (ds : List UInt64) (r : BitStreamReader) (rest : List Bool),
    r.Inv → r.bits = ds.flatMap (riceCode P.toNat) ++ rest →
    ∃ r', decodeN P ds.length r = .ok r' ∧ r'.Inv ∧ r'.bits = rest := by
  intro ds
  induction ds with
  | nil => exact fun r rest hr hbits => ⟨r, rfl, hr, by simpa using hbits⟩
  | cons d ds ih =>
    intro r rest hr hbits
    obtain ⟨r1, h1, hr1, hbits1⟩ := golombRiceDecode_cons hr hP hbits
    obtain ⟨r2, h2, hr2, hbits2⟩ := ih r1 rest hr1 hbits1
    exact ⟨r2, by rw [List.length_cons, decodeN, h1, Except.ok_bind]; exact h2, hr2, hbits2⟩

end Decode

/-! ## Filters read back and queried -/

theorem maxSize_lt : Unser.maxSize < 2 ^ 32 := by
  decide

theorem length_buildHashedSet (params : GCSParams) (F : UInt64) (elements : List (List UInt8)) :
    (buildHashedSet params F elements).length = elements.length := by
  rw [buildHashedSet, List.length_mergeSort, List.length_map]

theorem mem_buildHashedSet {params : GCSParams} {F : UInt64} {elements : List (List UInt8)} {x : UInt64} :
    x ∈ buildHashedSet params F elements ↔ ∃ e ∈ elements, hashToRange params F e = x := by
  rw [buildHashedSet, List.mem_mergeSort, List.mem_map]

theorem pairwise_buildHashedSet (params : GCSParams) (F : UInt64) (elements : List (List UInt8)) :
    (buildHashedSet params F elements).Pairwise (· ≤ ·) :=
  (List.pairwise_mergeSort (fun a b c hab hbc => by
      simp only [decide_eq_true_eq, UInt64.le_iff_toNat_le] at hab hbc ⊢
      omega)
    (fun a b => by
      simp only [Bool.or_eq_true, decide_eq_true_eq, UInt64.le_iff_toNat_le]
      omega) _).imp fun h => of_decide_eq_true h

/-- A filter built from at most `MAX_SIZE` elements: its count is read back, and the bits after
it are the codes of the differences of the sorted hashes, then fewer than eight zeros. -/
theorem ofElements_readBack {params : GCSParams} (hP : params.P.toNat < 64) {elements : List (List UInt8)}
    (hN : elements.length ≤ Unser.maxSize) :
    ∃ tail, ofElements params elements = .ok ⟨params, elements.length.toUInt32,
        elements.length.toUInt32.toUInt64 * params.M.toUInt64, Ser.compactSize elements.length ++ tail⟩ ∧
      Unser.readCompactSize (Ser.compactSize elements.length ++ tail) = .ok (elements.length, tail) ∧
      ∃ pad < 8, (BitStreamReader.ofStream tail).bits =
        (deltas 0 (buildHashedSet params (elements.length.toUInt32.toUInt64 * params.M.toUInt64) elements)).flatMap
          (riceCode params.P.toNat) ++ List.replicate pad false := by
  obtain ⟨tail, hf, pad, hpad, hbits⟩ := ofElements_spec hP (lt_of_le_of_lt hN maxSize_lt)
  refine ⟨tail, hf, ?_, pad, hpad, by rw [BitStreamReader.bits_ofStream, hbits]⟩
  rw [Unser.readCompactSize_compactSize (by have := maxSize_lt; omega), if_neg (by omega)]

/-- **A built filter is read back**: `GCSFilter(params, encoded_filter)` accepts the bytes of
`GCSFilter(params, elements)` and rebuilds the same filter. -/
theorem ofEncoded_ofElements {params : GCSParams} (hP : params.P.toNat < 64) {elements : List (List UInt8)}
    (hN : elements.length ≤ Unser.maxSize) :
    ∃ f, ofElements params elements = .ok f ∧ ofEncoded params f.encoded = .ok f := by
  obtain ⟨tail, hf, hcount, pad, hpad, hbits⟩ := ofElements_readBack hP hN
  have h32 : elements.length < 2 ^ 32 := lt_of_le_of_lt hN maxSize_lt
  obtain ⟨r, hr, hinv, hrest⟩ := decodeN_spec hP _ _ _ (BitStreamReader.inv_ofStream tail) hbits
  rw [length_deltas, length_buildHashedSet] at hr
  -- what is left are the padding bits of the last byte, so no byte is left
  have hempty : r.istream = [] := by
    have hlen := length_bits r
    rw [hrest, List.length_replicate] at hlen
    exact List.eq_nil_of_length_eq_zero (by omega)
  refine ⟨_, hf, ?_⟩
  rw [ofEncoded, hcount, Except.ok_bind]
  simp only [show ¬ 2 ^ 32 ≤ elements.length by omega, if_false, toNat_toUInt32_of_lt h32, hr, Except.ok_bind]
  simp only [hempty, ne_eq, not_true_eq_false, if_false]
  rfl

/-- **The walk of `MatchInternal`**: on sorted queries and sorted running sums, it answers
whether some query is one of the sums. -/
theorem skipQueries_spec {value : UInt64} {later : List UInt64} (hlater : ∀ x ∈ later, value ≤ x) :
    ∀ hashes : List UInt64, hashes.Pairwise (· ≤ ·) →
      (∀ b, skipQueries value hashes = .inl b → b = decide (∃ h ∈ hashes, h ∈ value :: later)) ∧
      (∀ hs, skipQueries value hashes = .inr hs →
        hs.Pairwise (· ≤ ·) ∧ ((∃ h ∈ hs, h ∈ later) ↔ ∃ h ∈ hashes, h ∈ value :: later)) := by
  intro hashes
  induction hashes with
  | nil =>
    intro _
    refine ⟨fun b hb => ?_, fun hs hs' => absurd hs' (by simp [skipQueries])⟩
    rw [skipQueries, Sum.inl.injEq] at hb
    simp [← hb]
  | cons h hs ih =>
    intro hsorted
    have hhs := List.pairwise_cons.mp hsorted
    by_cases heq : h = value
    · -- a query equal to the value: the answer is yes
      refine ⟨fun b hb => ?_, fun hs' hs'' => ?_⟩
      · rw [skipQueries, if_pos heq, Sum.inl.injEq] at hb
        rw [← hb, eq_comm, decide_eq_true_iff]
        exact ⟨h, List.mem_cons_self, List.mem_cons.mpr (Or.inl heq)⟩
      · rw [skipQueries, if_pos heq] at hs''
        cases hs''
    · by_cases hgt : h > value
      · -- a query above the value: break, and the value is not among the queries left
        refine ⟨fun b hb => ?_, fun hs' hs'' => ?_⟩
        · rw [skipQueries, if_neg heq, if_pos hgt] at hb
          cases hb
        · rw [skipQueries, if_neg heq, if_pos hgt, Sum.inr.injEq] at hs''
          subst hs''
          refine ⟨hsorted, ⟨fun ⟨x, hx, hxl⟩ => ⟨x, hx, List.mem_cons_of_mem _ hxl⟩, fun ⟨x, hx, hxl⟩ => ?_⟩⟩
          rcases List.mem_cons.mp hxl with rfl | hxl
          · -- `x` is the value, but every query left is above it
            exfalso
            have hle : h ≤ x := by
              rcases List.mem_cons.mp hx with rfl | hx
              · exact UInt64.le_iff_toNat_le.mpr (Nat.le_refl _)
              · exact hhs.1 x hx
            have := UInt64.lt_iff_toNat_lt.mp hgt
            have := UInt64.le_iff_toNat_le.mp hle
            omega
          · exact ⟨x, hx, hxl⟩
      · -- a query below the value: passed over, and it is below every later sum too
        have hnot : h ∉ value :: later := by
          intro hmem
          rcases List.mem_cons.mp hmem with rfl | hmem
          · exact heq rfl
          · have h1 := UInt64.le_iff_toNat_le.mp (hlater h hmem)
            have h2 : ¬ value.toNat < h.toNat := fun hlt => hgt (UInt64.lt_iff_toNat_lt.mpr hlt)
            exact heq (UInt64.toNat_inj.mp (by omega))
        have hdrop : (∃ x ∈ h :: hs, x ∈ value :: later) ↔ ∃ x ∈ hs, x ∈ value :: later := by
          refine ⟨fun ⟨x, hx, hxl⟩ => ?_, fun ⟨x, hx, hxl⟩ => ⟨x, List.mem_cons_of_mem _ hx, hxl⟩⟩
          rcases List.mem_cons.mp hx with rfl | hx
          · exact absurd hxl hnot
          · exact ⟨x, hx, hxl⟩
        obtain ⟨ihl, ihr⟩ := ih hhs.2
        rw [skipQueries, if_neg heq, if_neg hgt]
        refine ⟨fun b hb => by rw [ihl b hb]; exact decide_eq_decide.mpr hdrop.symm, fun hs' hs'' => ?_⟩
        obtain ⟨hs'sorted, hiff⟩ := ihr hs' hs''
        exact ⟨hs'sorted, hiff.trans hdrop.symm⟩

/-- **`MatchInternal`'s loop** answers whether some sorted query is one of the running sums of
the differences whose codes it reads. -/
theorem matchLoop_spec {P : UInt8} (hP : P.toNat < 64) :
    ∀ (ds : List UInt64) (r : BitStreamReader) (value : UInt64) (hashes : List UInt64) (rest : List Bool),
      r.Inv → r.bits = ds.flatMap (riceCode P.toNat) ++ rest → hashes.Pairwise (· ≤ ·) →
      (sums value ds).Pairwise (· ≤ ·) →
      matchLoop P ds.length r value hashes = .ok (decide (∃ h ∈ hashes, h ∈ sums value ds)) := by
  intro ds
  induction ds with
  | nil =>
    intro r value hashes rest _ _ _ _
    simp [matchLoop, sums]
  | cons d ds ih =>
    intro r value hashes rest hr hbits hhashes hsums
    obtain ⟨r1, h1, hr1, hbits1⟩ := golombRiceDecode_cons hr hP hbits
    rw [sums] at hsums ⊢
    have hlater := (List.pairwise_cons.mp hsums)
    obtain ⟨hinl, hinr⟩ := skipQueries_spec hlater.1 hashes hhashes
    rw [List.length_cons, matchLoop, h1, Except.ok_bind]
    dsimp only
    rcases hskip : skipQueries (value + d) hashes with b | hs
    · rw [hinl b hskip]
      rfl
    · obtain ⟨hsorted, hiff⟩ := hinr hs hskip
      dsimp only
      rw [ih r1 (value + d) hs rest hr1 hbits1 hsorted hlater.2, decide_eq_decide.mpr hiff]

/-- `MatchInternal` on a built filter answers whether some sorted query is one of the hashes. -/
theorem matchInternal_ofElements {params : GCSParams} (hP : params.P.toNat < 64) {elements : List (List UInt8)}
    (hN : elements.length ≤ Unser.maxSize) {f : GCSFilter} (hf : ofElements params elements = .ok f)
    {hashes : List UInt64} (hhashes : hashes.Pairwise (· ≤ ·)) :
    f.matchInternal hashes = .ok (decide (∃ h ∈ hashes, h ∈ buildHashedSet params f.F elements)) := by
  obtain ⟨tail, hf', hcount, pad, hpad, hbits⟩ := ofElements_readBack hP hN
  obtain rfl := Except.ok.inj (hf.symm.trans hf')
  have h32 : elements.length < 2 ^ 32 := lt_of_le_of_lt hN maxSize_lt
  have hloop := matchLoop_spec hP _ (BitStreamReader.ofStream tail) 0 hashes _ (BitStreamReader.inv_ofStream tail)
    hbits hhashes (by rw [sums_deltas]; exact pairwise_buildHashedSet _ _ _)
  rw [length_deltas, length_buildHashedSet, sums_deltas] at hloop
  rw [matchInternal]
  dsimp only
  rw [hcount, Except.ok_bind]
  simp only [toNat_toUInt32_of_lt h32, ne_eq, not_true_eq_false, if_false]
  exact hloop

/-- A built filter is the filter of its parameters, its count and the bytes of the encoder. -/
theorem eq_of_ofElements {params : GCSParams} (hP : params.P.toNat < 64) {elements : List (List UInt8)}
    (hN : elements.length ≤ Unser.maxSize) {f : GCSFilter} (hf : ofElements params elements = .ok f) :
    f.params = params ∧ f.F = elements.length.toUInt32.toUInt64 * params.M.toUInt64 := by
  obtain ⟨tail, hf', -⟩ := ofElements_readBack hP hN
  obtain rfl := Except.ok.inj (hf.symm.trans hf')
  exact ⟨rfl, rfl⟩

/-- **`Match` is exact** on a built filter: yes when the query hashes to the value of an element,
and no otherwise. -/
theorem match_ofElements {params : GCSParams} (hP : params.P.toNat < 64) {elements : List (List UInt8)}
    (hN : elements.length ≤ Unser.maxSize) {f : GCSFilter} (hf : ofElements params elements = .ok f)
    (query : List UInt8) :
    f.match' query = .ok (decide (∃ e ∈ elements, hashToRange params f.F query = hashToRange params f.F e)) := by
  obtain ⟨hparams, -⟩ := eq_of_ofElements hP hN hf
  rw [match', hparams, matchInternal_ofElements hP hN hf (List.pairwise_singleton _ _)]
  refine congrArg _ (decide_eq_decide.mpr ?_)
  simp only [List.mem_singleton, exists_eq_left, mem_buildHashedSet, eq_comm]

/-- **`MatchAny` is exact** on a built filter: yes when some query hashes to the value of some
element. -/
theorem matchAny_ofElements {params : GCSParams} (hP : params.P.toNat < 64) {elements : List (List UInt8)}
    (hN : elements.length ≤ Unser.maxSize) {f : GCSFilter} (hf : ofElements params elements = .ok f)
    (queries : List (List UInt8)) :
    f.matchAny queries = .ok (decide (∃ q ∈ queries, ∃ e ∈ elements,
      hashToRange params f.F q = hashToRange params f.F e)) := by
  obtain ⟨hparams, -⟩ := eq_of_ofElements hP hN hf
  rw [matchAny, hparams, matchInternal_ofElements hP hN hf (pairwise_buildHashedSet _ _ _)]
  refine congrArg _ (decide_eq_decide.mpr ⟨fun ⟨h, hhq, hhe⟩ => ?_, fun ⟨q, hq, e, he, heq⟩ => ?_⟩)
  · obtain ⟨q, hq, rfl⟩ := mem_buildHashedSet.mp hhq
    obtain ⟨e, he, heq⟩ := mem_buildHashedSet.mp hhe
    exact ⟨q, hq, e, he, heq.symm⟩
  · exact ⟨_, mem_buildHashedSet.mpr ⟨q, hq, rfl⟩, mem_buildHashedSet.mpr ⟨e, he, heq.symm⟩⟩

/-- Filters of `MAX_SIZE` elements or fewer decode what they encode and match exactly. -/
theorem ofElements_exact {params : GCSParams} (hP : params.P.toNat < 64) {elements : List (List UInt8)}
    (hN : elements.length ≤ Unser.maxSize) :
    ∃ f, ofElements params elements = .ok f ∧ ofEncoded params f.encoded = .ok f ∧
      (∀ query, f.match' query =
        .ok (decide (∃ e ∈ elements, hashToRange params f.F query = hashToRange params f.F e))) ∧
      ∀ queries, f.matchAny queries = .ok (decide (∃ q ∈ queries, ∃ e ∈ elements,
        hashToRange params f.F q = hashToRange params f.F e)) := by
  obtain ⟨f, hf, hdec⟩ := ofEncoded_ofElements hP hN
  exact ⟨f, hf, hdec, match_ofElements hP hN hf, matchAny_ofElements hP hN hf⟩

/-- The basic filter of two one-byte elements. -/
theorem ofElements_exact_twoElements :
    (⟨0, 0, 19, 784931⟩ : GCSParams).P.toNat < 64 ∧ [[1], [2]].length ≤ Unser.maxSize ∧
      ∃ f, ofElements ⟨0, 0, 19, 784931⟩ [[1], [2]] = .ok f ∧ ofEncoded ⟨0, 0, 19, 784931⟩ f.encoded = .ok f ∧
        (∀ query, f.match' query = .ok (decide (∃ e ∈ [[(1 : UInt8)], [2]],
          hashToRange ⟨0, 0, 19, 784931⟩ f.F query = hashToRange ⟨0, 0, 19, 784931⟩ f.F e))) ∧
        ∀ queries, f.matchAny queries = .ok (decide (∃ q ∈ queries, ∃ e ∈ [[(1 : UInt8)], [2]],
          hashToRange ⟨0, 0, 19, 784931⟩ f.F q = hashToRange ⟨0, 0, 19, 784931⟩ f.F e)) :=
  ⟨by decide, by decide, ofElements_exact (by decide) (by decide)⟩

/-- A filter of more than `MAX_SIZE` elements is built, but reading its count back fails, both
when it is decoded and when it is queried. -/
theorem ofElements_of_maxSize_lt {params : GCSParams} (hP : params.P.toNat < 64) {elements : List (List UInt8)}
    (hN : Unser.maxSize < elements.length) (h32 : elements.length < 2 ^ 32) :
    ∃ f, ofElements params elements = .ok f ∧
      ofEncoded params f.encoded = .error "ReadCompactSize(): size too large" ∧
      ∀ query, f.match' query = .error "ReadCompactSize(): size too large" := by
  obtain ⟨tail, hf, -⟩ := ofElements_spec hP h32
  have hsize := Unser.readCompactSize_compactSize (n := elements.length) (by omega) tail
  rw [if_pos hN] at hsize
  refine ⟨_, hf, ?_, fun query => ?_⟩
  · rw [ofEncoded, hsize]
    rfl
  · rw [match', matchInternal]
    dsimp only
    rw [hsize]
    rfl

/-- The basic filter of the first `MAX_SIZE + 1` four-byte counters. -/
theorem ofEncoded_rejects_maxSize_succ :
    ∃ f, ofElements ⟨0, 0, 19, 784931⟩ ((List.range 0x02000001).map (ByteReader.encodeLE 4)) = .ok f ∧
      ofEncoded ⟨0, 0, 19, 784931⟩ f.encoded = .error "ReadCompactSize(): size too large" ∧
      ∀ query, f.match' query = .error "ReadCompactSize(): size too large" :=
  ofElements_of_maxSize_lt (by decide) (by rw [List.length_map, List.length_range]; decide)
    (by rw [List.length_map, List.length_range]; decide)

end GCSFilter

end Sumcoin
