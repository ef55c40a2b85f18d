import Sumcoin.Primitives.Serialize
import Sumcoin.Lib.ByteReader

/-!
# Reading transactions back: `Unserialize` in `serialize.h` and `UnserializeTransaction`

The readers of `serialize.h` undo the writers of `Primitives.Serialize`: integers are
read little-endian at their width, a vector as a `ReadCompactSize` count and then its
elements.  `ReadCompactSize` refuses two things the writer never produces, a count in
a longer form than it needs and a count above `MAX_SIZE`, so a vector of more than
`MAX_SIZE` elements is written but not read back.

`UnserializeTransaction` reads the extended format as the source does: it reads `vin`,
and when that is empty (the dummy) and the stream allows witnesses it reads a flags
byte and then `vin` again; with bit 0 of the flags it reads a witness stack for each
input, and it refuses an all-empty witness record and any other flag.

Each reader is proved against its writer with the two laws of `Lib.ByteReader`: it
reads back every value its limits admit, and what it accepts is the writer's bytes.

## Main definitions

* `Unser.readCompactSize`, `Unser.vector`, `Unser.txIn`, `Unser.txOut`.
* `Unser.unserializeTransaction`.
* `Unser.transactionFits`: the transactions whose every vector `ReadCompactSize` admits.
-/

namespace Sumcoin

open ByteReader

theorem Ser.le_eq_encodeLE (n x : Nat) : Ser.le n x = encodeLE n x := by
  induction n generalizing x with
  | zero => rfl
  | succ n ih => simp [Ser.le, encodeLE, ih]

namespace CTxIn

/-- The input without its witness: what a serialization without witnesses carries. -/
def withoutWitness (txin : CTxIn) : CTxIn := { txin with scriptWitness := ⟨[]⟩ }

end CTxIn

namespace CTransaction

/-- The transaction with every witness stack empty. -/
def withoutWitness (tx : CTransaction) : CTransaction :=
  { tx with vin := tx.vin.map CTxIn.withoutWitness }

end CTransaction

namespace Unser

/-! ## Integers and counts -/

/-- `MAX_SIZE`. -/
def maxSize : Nat := 0x02000000

/-- `ser_readdata32` into an `int32_t`. -/
def int32 : Reader Int32 := do
  let v ← readLE 4
  pure (UInt32.ofNat v).toInt32

/-- `ser_readdata32` into a `uint32_t`. -/
def uint32 : Reader UInt32 := do
  let v ← readLE 4
  pure (UInt32.ofNat v)

/-- `ser_readdata64` into an `int64_t`: the two's complement of the 64 bits. -/
def int64 : Reader Int := do
  let v ← readLE 8
  pure (if v < 2 ^ 63 then (v : Int) else (v : Int) - 2 ^ 64)

/-- A count after its marker byte: `width` bytes, refused as non-canonical below `min`,
the least count that needs the marker. -/
def readMarked (width min : Nat) : Reader Nat := do
  let n ← readLE width
  if n < min then throw "non-canonical ReadCompactSize()" else pure n

/-- The count after the first byte `chSize` of `ReadCompactSize`: the byte itself below
253, else the 2, 4 or 8 bytes after it. -/
def compactSizeValue (chSize : UInt8) : Reader Nat :=
  if chSize < 253 then pure chSize.toNat
  else if chSize = 253 then readMarked 2 253
  else if chSize = 254 then readMarked 4 0x10000
  else readMarked 8 0x100000000

/-- `ReadCompactSize(is)`. -/
def readCompactSize : Reader Nat := do
  let chSize ← readByte
  let nSizeRet ← compactSizeValue chSize
  if nSizeRet > maxSize then throw "ReadCompactSize(): size too large" else pure nSizeRet

theorem readsBack_int32 : ReadsBack (fun _ => True) (fun v => Ser.le 4 v.toUInt32.toNat) int32 := by
  intro v rest _
  dsimp only
  rw [Ser.le_eq_encodeLE, int32, bind_of_ok (readsBack_readLE 4 _ rest v.toUInt32.toNat_lt)]
  simp

theorem canonical_int32 : Canonical (fun _ => True) (fun v => Ser.le 4 v.toUInt32.toNat) int32 := by
  intro s v rest h
  obtain ⟨n, s', hn, hv⟩ := bind_eq_ok.mp h
  obtain ⟨hlt, rfl⟩ := canonical_readLE 4 s n s' hn
  obtain ⟨rfl, rfl⟩ := pure_eq_ok.mp hv
  have hmod : n % 4294967296 = n := Nat.mod_eq_of_lt (by simpa using hlt)
  simp [Ser.le_eq_encodeLE, hmod]

theorem readsBack_uint32 : ReadsBack (fun _ => True) (fun v => Ser.le 4 v.toNat) uint32 := by
  intro v rest _
  dsimp only
  rw [Ser.le_eq_encodeLE, uint32, bind_of_ok (readsBack_readLE 4 _ rest v.toNat_lt)]
  simp

theorem canonical_uint32 : Canonical (fun _ => True) (fun v => Ser.le 4 v.toNat) uint32 := by
  intro s v rest h
  obtain ⟨n, s', hn, hv⟩ := bind_eq_ok.mp h
  obtain ⟨hlt, rfl⟩ := canonical_readLE 4 s n s' hn
  obtain ⟨rfl, rfl⟩ := pure_eq_ok.mp hv
  have hmod : n % 4294967296 = n := Nat.mod_eq_of_lt (by simpa using hlt)
  simp [Ser.le_eq_encodeLE, hmod]

/-- An amount an `int64_t` holds. -/
def Int64Range (v : Int) : Prop := -2 ^ 63 ≤ v ∧ v < 2 ^ 63

instance : DecidablePred Int64Range := fun v => inferInstanceAs (Decidable (_ ∧ _))

theorem readsBack_int64 : ReadsBack Int64Range (fun v => Ser.le 8 (v % 2 ^ 64).toNat) int64 := by
  rintro v rest ⟨hlo, hhi⟩
  have hlt : (v % 2 ^ 64).toNat < 256 ^ 8 := by omega
  dsimp only
  rw [Ser.le_eq_encodeLE, int64, bind_of_ok (readsBack_readLE 8 _ rest hlt), pure_apply]
  congr 2
  split <;> omega

theorem canonical_int64 : Canonical Int64Range (fun v => Ser.le 8 (v % 2 ^ 64).toNat) int64 := by
  intro s v rest h
  obtain ⟨n, s', hn, hv⟩ := bind_eq_ok.mp h
  obtain ⟨hlt, rfl⟩ := canonical_readLE 8 s n s' hn
  obtain ⟨rfl, rfl⟩ := pure_eq_ok.mp hv
  have hlt' : n < 2 ^ 64 := by simpa using hlt
  refine ⟨by constructor <;> split <;> omega, ?_⟩
  have hn : ((if n < 2 ^ 63 then (n : Int) else (n : Int) - 2 ^ 64) % 2 ^ 64).toNat = n := by
    split <;> omega
  dsimp only
  rw [hn, Ser.le_eq_encodeLE]

theorem readMarked_encodeLE {width min n : Nat} (hmin : min ≤ n) (hn : n < 256 ^ width)
    (rest : List UInt8) : readMarked width min (encodeLE width n ++ rest) = .ok (n, rest) := by
  rw [readMarked, bind_of_ok (readsBack_readLE width n rest hn), if_neg (by omega), pure_apply]

theorem encodeLE_of_readMarked {width min n : Nat} {s rest : List UInt8}
    (h : readMarked width min s = .ok (n, rest)) :
    min ≤ n ∧ n < 256 ^ width ∧ s = encodeLE width n ++ rest := by
  obtain ⟨m, s', hm, hguard⟩ := bind_eq_ok.mp h
  obtain ⟨hlt, rfl⟩ := canonical_readLE width s m s' hm
  split at hguard
  case isTrue => exact absurd hguard throw_ne_ok
  case isFalse hmin =>
    obtain ⟨rfl, rfl⟩ := pure_eq_ok.mp hguard
    exact ⟨by omega, hlt, rfl⟩

/-- The bytes `WriteCompactSize` writes for a count below `2 ^ 64` are its marker byte and
what `compactSizeValue` reads after it. -/
theorem compactSizeValue_compactSize {n : Nat} (h64 : n < 2 ^ 64) (rest : List UInt8) :
    ∃ chSize tail, Ser.compactSize n ++ rest = chSize :: tail ∧
      compactSizeValue chSize tail = .ok (n, rest) := by
  unfold Ser.compactSize
  split
  case isTrue h253 =>
    have hbyte : (n % 256).toUInt8 < 253 := by
      rw [UInt8.lt_iff_toNat_lt]
      simp
      omega
    refine ⟨(n % 256).toUInt8, rest, by simp [Ser.le], ?_⟩
    rw [compactSizeValue, if_pos hbyte, pure_apply]
    simp
    omega
  case isFalse h253 =>
    split
    case isTrue h16 =>
      refine ⟨253, Ser.le 2 n ++ rest, rfl, ?_⟩
      rw [compactSizeValue, if_neg (by decide), if_pos rfl, Ser.le_eq_encodeLE]
      exact readMarked_encodeLE (by omega) (by omega) rest
    case isFalse h16 =>
      split
      case isTrue h32 =>
        refine ⟨254, Ser.le 4 n ++ rest, rfl, ?_⟩
        rw [compactSizeValue, if_neg (by decide), if_neg (by decide), if_pos rfl,
          Ser.le_eq_encodeLE]
        exact readMarked_encodeLE (by omega) (by omega) rest
      case isFalse h32 =>
        refine ⟨255, Ser.le 8 n ++ rest, rfl, ?_⟩
        rw [compactSizeValue, if_neg (by decide), if_neg (by decide), if_neg (by decide),
          Ser.le_eq_encodeLE]
        exact readMarked_encodeLE (by omega) (by omega) rest

/-- A count below `2 ^ 64` is read back when it is at most `MAX_SIZE`, and refused
otherwise. -/
theorem readCompactSize_compactSize {n : Nat} (h64 : n < 2 ^ 64) (rest : List UInt8) :
    readCompactSize (Ser.compactSize n ++ rest) =
      if n > maxSize then .error "ReadCompactSize(): size too large" else .ok (n, rest) := by
  obtain ⟨chSize, tail, heq, hv⟩ := compactSizeValue_compactSize h64 rest
  rw [heq, readCompactSize, bind_of_ok (readByte_cons _ _), bind_of_ok hv]
  split <;> rfl

theorem readsBack_readCompactSize :
    ReadsBack (· ≤ maxSize) Ser.compactSize readCompactSize := by
  intro n rest hn
  have hmax : maxSize = 0x02000000 := rfl
  rw [readCompactSize_compactSize (by omega), if_neg (by omega)]

theorem canonical_compactSizeValue {chSize : UInt8} {s rest : List UInt8} {n : Nat}
    (h : compactSizeValue chSize s = .ok (n, rest)) :
    chSize :: s = Ser.compactSize n ++ rest := by
  have hch : chSize.toNat < 256 := chSize.toNat_lt
  unfold compactSizeValue at h
  split at h
  case isTrue h253 =>
    obtain ⟨rfl, rfl⟩ := pure_eq_ok.mp h
    have h253' : chSize.toNat < 253 := UInt8.lt_iff_toNat_lt.mp h253
    simp [Ser.compactSize, h253', Ser.le_eq_encodeLE, encodeLE]
  case isFalse h253 =>
    split at h
    case isTrue heq =>
      obtain ⟨hlo, hhi, rfl⟩ := encodeLE_of_readMarked h
      simp [Ser.compactSize, heq, Ser.le_eq_encodeLE, show ¬ n < 253 by omega,
        show n ≤ 0xffff by simp at hhi; omega]
    case isFalse hne =>
      split at h
      case isTrue heq =>
        obtain ⟨hlo, hhi, rfl⟩ := encodeLE_of_readMarked h
        simp [Ser.compactSize, heq, Ser.le_eq_encodeLE, show ¬ n < 253 by omega,
          show ¬ n ≤ 0xffff by omega, show n ≤ 0xffffffff by simp at hhi; omega]
      case isFalse hne' =>
        obtain ⟨hlo, hhi, rfl⟩ := encodeLE_of_readMarked h
        have h255 : chSize = 255 := by
          rw [UInt8.lt_iff_toNat_lt] at h253
          apply UInt8.toNat_inj.mp
          simp at h253 hne hne' ⊢
          rw [← UInt8.toNat_inj] at hne hne'
          simp at hne hne'
          omega
        simp [Ser.compactSize, h255, Ser.le_eq_encodeLE, show ¬ n < 253 by omega,
          show ¬ n ≤ 0xffff by omega, show ¬ n ≤ 0xffffffff by omega]

theorem canonical_readCompactSize :
    Canonical (· ≤ maxSize) Ser.compactSize readCompactSize := by
  intro s n rest h
  obtain ⟨chSize, s₁, hch, hvalue⟩ := bind_eq_ok.mp h
  obtain rfl := readByte_eq_ok.mp hch
  obtain ⟨m, s₂, hm, hguard⟩ := bind_eq_ok.mp hvalue
  split at hguard
  case isTrue => exact absurd hguard throw_ne_ok
  case isFalse hle =>
    obtain ⟨rfl, rfl⟩ := pure_eq_ok.mp hguard
    exact ⟨by omega, canonical_compactSizeValue hm⟩

/-! ## Vectors, scripts, outpoints, inputs and outputs -/

/-- A `std::vector` read by `VectorFormatter`: the count, then each element. -/
def vector {α : Type} (r : Reader α) : Reader (List α) := readCounted readCompactSize r

/-- A vector whose elements are admitted and whose count `ReadCompactSize` admits. -/
def VectorFits {α : Type} (P : α → Prop) (xs : List α) : Prop :=
  xs.length ≤ maxSize ∧ ∀ x ∈ xs, P x

section Vectors

variable {α : Type} {P : α → Prop} {enc : α → List UInt8} {r : Reader α}

theorem readsBack_vector (h : ReadsBack P enc r) :
    ReadsBack (VectorFits P) (Ser.vector enc) (vector r) :=
  readsBack_readCounted readsBack_readCompactSize h

theorem canonical_vector (h : Canonical P enc r) :
    Canonical (VectorFits P) (Ser.vector enc) (vector r) :=
  canonical_readCounted canonical_readCompactSize h

end Vectors

/-- The bytes of a `CScript` (`prevector<28, unsigned char>`), read in blocks of at most
5000000 bytes: the count, then the bytes. -/
def script : Reader CScript := vector readByte

theorem readsBack_script : ReadsBack (fun b : CScript => b.length ≤ maxSize) Ser.bytes script := by
  intro b rest hb
  have h := readsBack_vector readsBack_readByte b rest ⟨hb, fun _ _ => trivial⟩
  simpa [Ser.vector, Ser.bytes, script] using h

theorem canonical_script : Canonical (fun b : CScript => b.length ≤ maxSize) Ser.bytes script := by
  intro s b rest h
  obtain ⟨⟨hb, _⟩, rfl⟩ := canonical_vector canonical_readByte s b rest h
  exact ⟨hb, by simp [Ser.vector, Ser.bytes]⟩

/-- `base_blob::Unserialize`: the 32 raw bytes. -/
def uint256 : Reader Uint256 := do
  let bytes ← readList readByte 32
  pure ⟨Vector.ofFn fun i => bytes.getD i 0⟩

theorem readsBack_uint256 : ReadsBack (fun _ => True) Ser.uint256 uint256 := by
  intro a rest _
  have hlen : a.data.toList.length = 32 := by simp
  have hread := readList_flatMap readsBack_readByte
    (fun _ _ => trivial : ∀ b ∈ a.data.toList, True) rest
  rw [hlen, List.flatMap_singleton'] at hread
  have hdata : (Vector.ofFn fun i : Fin 32 => a.data.toList.getD i 0) = a.data := by
    ext i hi
    simp
  rw [Ser.uint256, uint256, bind_of_ok hread, pure_apply, hdata]

/-- The blob `uint256` builds from 32 bytes holds those bytes. -/
theorem toList_ofFn_getD {bytes : List UInt8} (h : bytes.length = 32) :
    (Vector.ofFn fun i : Fin 32 => bytes.getD i 0).toList = bytes := by
  apply List.ext_getElem
  · simp [h]
  · intro i h₁ h₂
    simp [List.getElem?_eq_getElem h₂]

theorem canonical_uint256 : Canonical (fun _ => True) Ser.uint256 uint256 := by
  intro s a rest h
  obtain ⟨bytes, s', hbytes, ha⟩ := bind_eq_ok.mp h
  obtain ⟨rfl, rfl⟩ := pure_eq_ok.mp ha
  obtain ⟨hlen, -, rfl⟩ := flatMap_of_readList canonical_readByte hbytes
  refine ⟨trivial, ?_⟩
  rw [Ser.uint256, toList_ofFn_getD hlen, List.flatMap_singleton']

/-- `COutPoint`: `hash`, `n`. -/
def outPoint : Reader COutPoint := do
  let hash ← uint256
  let n ← uint32
  pure ⟨hash, n⟩

theorem readsBack_outPoint : ReadsBack (fun _ => True) Ser.outPoint outPoint := by
  intro o rest _
  rw [Ser.outPoint, List.append_assoc, outPoint, bind_of_ok (readsBack_uint256 _ _ trivial),
    bind_of_ok (readsBack_uint32 _ _ trivial), pure_apply]

theorem canonical_outPoint : Canonical (fun _ => True) Ser.outPoint outPoint := by
  intro s o rest h
  obtain ⟨hash, s₁, hhash, h⟩ := bind_eq_ok.mp h
  obtain ⟨n, s₂, hn, h⟩ := bind_eq_ok.mp h
  obtain ⟨rfl, rfl⟩ := pure_eq_ok.mp h
  obtain ⟨-, rfl⟩ := canonical_uint256 s hash s₁ hhash
  obtain ⟨-, rfl⟩ := canonical_uint32 s₁ n s₂ hn
  exact ⟨trivial, by simp [Ser.outPoint]⟩

/-- `CTxIn`: `prevout`, `scriptSig`, `nSequence`; the witness is read with the
transaction. -/
def txIn : Reader CTxIn := do
  let prevout ← outPoint
  let scriptSig ← script
  let nSequence ← uint32
  pure ⟨prevout, scriptSig, nSequence, ⟨[]⟩⟩

/-- An input `txIn` returns: its script fits and it has no witness. -/
def TxInRead (txin : CTxIn) : Prop := txin.scriptSig.length ≤ maxSize ∧ txin.scriptWitness = ⟨[]⟩

theorem readsBack_txIn : ReadsBack TxInRead Ser.txIn txIn := by
  rintro ⟨prevout, scriptSig, nSequence, w⟩ rest ⟨hs, hw⟩
  simp only at hs hw
  rw [hw, Ser.txIn, List.append_assoc, List.append_assoc, txIn,
    bind_of_ok (readsBack_outPoint _ _ trivial), bind_of_ok (readsBack_script _ _ hs),
    bind_of_ok (readsBack_uint32 _ _ trivial), pure_apply]

theorem canonical_txIn : Canonical TxInRead Ser.txIn txIn := by
  intro s txin rest h
  obtain ⟨prevout, s₁, hp, h⟩ := bind_eq_ok.mp h
  obtain ⟨scriptSig, s₂, hs, h⟩ := bind_eq_ok.mp h
  obtain ⟨nSequence, s₃, hn, h⟩ := bind_eq_ok.mp h
  obtain ⟨rfl, rfl⟩ := pure_eq_ok.mp h
  obtain ⟨-, rfl⟩ := canonical_outPoint s prevout s₁ hp
  obtain ⟨hlen, rfl⟩ := canonical_script s₁ scriptSig s₂ hs
  obtain ⟨-, rfl⟩ := canonical_uint32 s₂ nSequence s₃ hn
  exact ⟨⟨hlen, rfl⟩, by simp [Ser.txIn]⟩

/-- `CTxOut`: `nValue`, `scriptPubKey`. -/
def txOut : Reader CTxOut := do
  let nValue ← int64
  let scriptPubKey ← script
  pure ⟨nValue, scriptPubKey⟩

/-- An output a stream can carry: an `int64_t` amount and a script that fits. -/
def TxOutFits (txout : CTxOut) : Prop :=
  Int64Range txout.nValue ∧ txout.scriptPubKey.length ≤ maxSize

instance : DecidablePred TxOutFits := fun _ => inferInstanceAs (Decidable (_ ∧ _))

theorem readsBack_txOut : ReadsBack TxOutFits Ser.txOut txOut := by
  rintro ⟨nValue, scriptPubKey⟩ rest ⟨hv, hs⟩
  rw [Ser.txOut, List.append_assoc, txOut, bind_of_ok (readsBack_int64 _ _ hv),
    bind_of_ok (readsBack_script _ _ hs), pure_apply]

theorem canonical_txOut : Canonical TxOutFits Ser.txOut txOut := by
  intro s txout rest h
  obtain ⟨nValue, s₁, hv, h⟩ := bind_eq_ok.mp h
  obtain ⟨scriptPubKey, s₂, hs, h⟩ := bind_eq_ok.mp h
  obtain ⟨rfl, rfl⟩ := pure_eq_ok.mp h
  obtain ⟨hrange, rfl⟩ := canonical_int64 s nValue s₁ hv
  obtain ⟨hlen, rfl⟩ := canonical_script s₁ scriptPubKey s₂ hs
  exact ⟨⟨hrange, hlen⟩, by simp [Ser.txOut]⟩

/-- A witness stack, `std::vector<std::vector<unsigned char>>`. -/
def witnessStack : Reader (List (List UInt8)) := vector script

/-- A witness whose stack and items fit. -/
def WitnessFits (w : CScriptWitness) : Prop :=
  VectorFits (fun item : List UInt8 => item.length ≤ maxSize) w.stack

theorem readsBack_witnessStack (w : CScriptWitness) (hw : WitnessFits w) (rest : List UInt8) :
    witnessStack (Ser.witness w ++ rest) = .ok (w.stack, rest) :=
  readsBack_vector readsBack_script w.stack rest hw

theorem canonical_witnessStack {s rest : List UInt8} {stack : List (List UInt8)}
    (h : witnessStack s = .ok (stack, rest)) :
    WitnessFits ⟨stack⟩ ∧ s = Ser.witness ⟨stack⟩ ++ rest :=
  canonical_vector canonical_script s stack rest h

/-! ## Transactions -/

/-- The loop `s >> tx.vin[i].scriptWitness.stack` over the inputs. -/
def readWitnesses : List CTxIn → Reader (List CTxIn)
  | [] => pure []
  | txin :: vin => do
    let stack ← witnessStack
    let vin ← readWitnesses vin
    pure ({ txin with scriptWitness := ⟨stack⟩ } :: vin)

/-- After the first `vin`: when it is empty and witnesses are allowed, the flags byte,
and unless the flags are zero `vin` again and `vout`; otherwise `vout`. -/
def readAfterVin (fAllowWitness : Bool) (vin : List CTxIn) :
    Reader (UInt8 × List CTxIn × List CTxOut) :=
  if vin.length = 0 ∧ fAllowWitness then do
    let flags ← readByte
    if flags ≠ 0 then do
      let vin ← vector txIn
      let vout ← vector txOut
      pure (flags, vin, vout)
    else pure (flags, vin, [])
  else do
    let vout ← vector txOut
    pure (0, vin, vout)

/-- The witness record: with bit 0 of the flags and witnesses allowed, bit 0 is cleared
and one stack is read per input; the stacks must not all be empty. -/
def readWitnessRecord (fAllowWitness : Bool) (flags : UInt8) (vin : List CTxIn) :
    Reader (UInt8 × List CTxIn) :=
  if flags &&& 1 ≠ 0 ∧ fAllowWitness then do
    let vin ← readWitnesses vin
    if !(vin.any fun txin => !txin.scriptWitness.isNull) then
      throw "Superfluous witness record"
    else pure (flags ^^^ 1, vin)
  else pure (flags, vin)

/-- `nVersion`, then `nTime` below version 3; from version 3 on `nTime` is set to 0. -/
def readVersionTime : Reader (Int32 × UInt32) := do
  let nVersion ← int32
  let nTime ← if nVersion < 3 then uint32 else pure 0
  pure (nVersion, nTime)

/-- `UnserializeTransaction(tx, s)`, where `fAllowWitness` is
`!(s.GetVersion() & SERIALIZE_TRANSACTION_NO_WITNESS)`. -/
def unserializeTransaction (fAllowWitness : Bool) : Reader CTransaction := do
  let (nVersion, nTime) ← readVersionTime
  let vin ← vector txIn
  let (flags, vin, vout) ← readAfterVin fAllowWitness vin
  let (flags, vin) ← readWitnessRecord fAllowWitness flags vin
  if flags ≠ 0 then throw "Unknown transaction optional data"
  else do
    let nLockTime ← uint32
    pure ⟨vin, vout, nVersion, nTime, nLockTime⟩

/-- A transaction every vector of which `ReadCompactSize` admits, witness stacks
included, and every amount of which is an `int64_t`. -/
def transactionFits (tx : CTransaction) : Prop :=
  VectorFits (fun txin => txin.scriptSig.length ≤ maxSize ∧ WitnessFits txin.scriptWitness)
      tx.vin ∧
    VectorFits TxOutFits tx.vout

instance {α : Type} {P : α → Prop} [DecidablePred P] : DecidablePred (VectorFits P) :=
  fun xs => inferInstanceAs (Decidable (_ ∧ ∀ x ∈ xs, P x))

instance : DecidablePred WitnessFits := fun w => inferInstanceAs (Decidable (VectorFits _ w.stack))

instance : DecidablePred transactionFits := fun tx =>
  inferInstanceAs (Decidable (VectorFits _ tx.vin ∧ VectorFits _ tx.vout))

/-! ## The shapes of a serialized transaction -/

@[simp] theorem txIn_withoutWitness (txin : CTxIn) : Ser.txIn txin.withoutWitness = Ser.txIn txin :=
  rfl

theorem vector_txIn_map_withoutWitness (vin : List CTxIn) :
    Ser.vector Ser.txIn (vin.map CTxIn.withoutWitness) = Ser.vector Ser.txIn vin := by
  simp [Ser.vector, List.flatMap_map]

/-- Inputs with empty witness stacks are their own witness-free copies. -/
theorem map_withoutWitness_eq_self {vin : List CTxIn}
    (h : (vin.any fun txin => !txin.scriptWitness.isNull) = false) :
    vin.map CTxIn.withoutWitness = vin := by
  induction vin with
  | nil => rfl
  | cons txin vin ih =>
    obtain ⟨prevout, scriptSig, nSequence, ⟨stack⟩⟩ := txin
    simp only [List.any_cons, Bool.or_eq_false_iff, Bool.not_eq_false'] at h
    have hnull : stack = [] := by simpa [CScriptWitness.isNull] using h.1
    rw [List.map_cons, ih h.2, CTxIn.withoutWitness, hnull]

/-- With a witness to write, the bytes after the version (and time) are the dummy, the
flags byte 1, `vin`, `vout`, the stacks and `nLockTime`. -/
theorem transaction_of_hasWitness (tx : CTransaction) (h : tx.hasWitness = true) :
    Ser.transaction true tx = Ser.le 4 tx.nVersion.toUInt32.toNat ++
      ((if tx.nVersion < 3 then Ser.le 4 tx.nTime.toNat else []) ++
        (Ser.vector Ser.txIn [] ++ (1 :: (Ser.vector Ser.txIn tx.vin ++
          (Ser.vector Ser.txOut tx.vout ++
            (tx.vin.flatMap (fun txin => Ser.witness txin.scriptWitness) ++
              Ser.le 4 tx.nLockTime.toNat)))))) := by
  simp [Ser.transaction, h]

/-- Without a witness to write, the bytes after the version (and time) are `vin`, `vout`
and `nLockTime`. -/
theorem transaction_of_not_hasWitness {fAllowWitness : Bool} {tx : CTransaction}
    (h : (fAllowWitness && tx.hasWitness) = false) :
    Ser.transaction fAllowWitness tx = Ser.le 4 tx.nVersion.toUInt32.toNat ++
      ((if tx.nVersion < 3 then Ser.le 4 tx.nTime.toNat else []) ++
        (Ser.vector Ser.txIn tx.vin ++ (Ser.vector Ser.txOut tx.vout ++
          Ser.le 4 tx.nLockTime.toNat))) := by
  simp [Ser.transaction, h]

/-! ## Each step of `UnserializeTransaction` -/

theorem readVersionTime_eq {v : Int32} {t : UInt32} (ht : 3 ≤ v → t = 0) (rest : List UInt8) :
    readVersionTime (Ser.le 4 v.toUInt32.toNat ++ ((if v < 3 then Ser.le 4 t.toNat else []) ++ rest))
      = .ok ((v, t), rest) := by
  rw [readVersionTime, bind_of_ok (readsBack_int32 v _ trivial)]
  dsimp only
  by_cases hv : v < 3
  · rw [if_pos hv, if_pos hv, bind_of_ok (readsBack_uint32 t rest trivial), pure_apply]
  · rw [if_neg hv, if_neg hv, List.nil_append, bind_of_ok (pure_apply _ _), pure_apply,
      ht (Int32.not_lt.mp hv)]

theorem canonical_readVersionTime {s rest : List UInt8} {v : Int32} {t : UInt32}
    (h : readVersionTime s = .ok ((v, t), rest)) :
    (3 ≤ v → t = 0) ∧
      s = Ser.le 4 v.toUInt32.toNat ++ ((if v < 3 then Ser.le 4 t.toNat else []) ++ rest) := by
  obtain ⟨v', s₁, hv', h₁⟩ := bind_eq_ok.mp h
  obtain ⟨-, rfl⟩ := canonical_int32 s v' s₁ hv'
  by_cases hv : v' < 3
  · rw [if_pos hv] at h₁
    obtain ⟨t', s₂, ht', h₂⟩ := bind_eq_ok.mp h₁
    obtain ⟨heq, rfl⟩ := pure_eq_ok.mp h₂
    obtain ⟨rfl, rfl⟩ := Prod.mk.inj heq
    obtain ⟨-, rfl⟩ := canonical_uint32 s₁ t' s₂ ht'
    exact ⟨fun h3 => absurd hv (Int32.not_lt.mpr h3), by rw [if_pos hv]⟩
  · rw [if_neg hv] at h₁
    obtain ⟨heq, rfl⟩ := pure_eq_ok.mp h₁
    obtain ⟨rfl, rfl⟩ := Prod.mk.inj heq
    exact ⟨fun _ => rfl, by rw [if_neg hv, List.nil_append]⟩

/-- `vector txIn` reads the inputs back without their witnesses. -/
theorem vector_txIn_vector {vin : List CTxIn}
    (hvin : VectorFits (fun txin => txin.scriptSig.length ≤ maxSize) vin) (rest : List UInt8) :
    vector txIn (Ser.vector Ser.txIn vin ++ rest) = .ok (vin.map CTxIn.withoutWitness, rest) := by
  rw [← vector_txIn_map_withoutWitness]
  refine readsBack_vector readsBack_txIn _ rest ⟨by simpa using hvin.1, ?_⟩
  intro txin htxin
  obtain ⟨txin, hmem, rfl⟩ := List.mem_map.mp htxin
  exact ⟨hvin.2 txin hmem, rfl⟩

theorem readWitnesses_flatMap {vin : List CTxIn}
    (hw : ∀ txin ∈ vin, WitnessFits txin.scriptWitness) (rest : List UInt8) :
    readWitnesses (vin.map CTxIn.withoutWitness)
        (vin.flatMap (fun txin => Ser.witness txin.scriptWitness) ++ rest) = .ok (vin, rest) := by
  induction vin with
  | nil => rfl
  | cons txin vin ih =>
    have hhead := hw txin List.mem_cons_self
    have htail : ∀ t ∈ vin, WitnessFits t.scriptWitness :=
      fun t ht => hw t (List.mem_cons_of_mem txin ht)
    rw [List.map_cons, List.flatMap_cons, List.append_assoc, readWitnesses,
      bind_of_ok (readsBack_witnessStack _ hhead _), bind_of_ok (ih htail), pure_apply]
    rfl

theorem canonical_readWitnesses {vin vin' : List CTxIn} {s rest : List UInt8}
    (h : readWitnesses vin s = .ok (vin', rest)) :
    vin'.map CTxIn.withoutWitness = vin.map CTxIn.withoutWitness ∧
      (∀ txin ∈ vin', WitnessFits txin.scriptWitness) ∧
      s = vin'.flatMap (fun txin => Ser.witness txin.scriptWitness) ++ rest := by
  induction vin generalizing s vin' with
  | nil =>
    obtain ⟨rfl, rfl⟩ := pure_eq_ok.mp h
    simp
  | cons txin vin ih =>
    obtain ⟨stack, s₁, hstack, h₁⟩ := bind_eq_ok.mp h
    obtain ⟨vin'', s₂, hvin, h₂⟩ := bind_eq_ok.mp h₁
    obtain ⟨rfl, rfl⟩ := pure_eq_ok.mp h₂
    obtain ⟨hfits, rfl⟩ := canonical_witnessStack hstack
    obtain ⟨hmap, hall, rfl⟩ := ih hvin
    refine ⟨by simp [hmap, CTxIn.withoutWitness], ?_, by simp⟩
    intro t ht
    rcases List.mem_cons.mp ht with rfl | ht
    · exact hfits
    · exact hall t ht

theorem readAfterVin_of_ne_nil {vin : List CTxIn} (hvin : vin ≠ []) (fAllowWitness : Bool)
    {vout : List CTxOut} (hvout : VectorFits TxOutFits vout) (rest : List UInt8) :
    readAfterVin fAllowWitness vin (Ser.vector Ser.txOut vout ++ rest) = .ok ((0, vin, vout), rest) := by
  have hnot : ¬ (vin.length = 0 ∧ fAllowWitness = true) :=
    fun h => hvin (List.eq_nil_of_length_eq_zero h.1)
  rw [readAfterVin, if_neg hnot, bind_of_ok (readsBack_vector readsBack_txOut vout rest hvout),
    pure_apply]

theorem readAfterVin_extended {vin : List CTxIn}
    (hvin : VectorFits (fun txin => txin.scriptSig.length ≤ maxSize) vin) {vout : List CTxOut}
    (hvout : VectorFits TxOutFits vout) (rest : List UInt8) :
    readAfterVin true [] (1 :: (Ser.vector Ser.txIn vin ++ (Ser.vector Ser.txOut vout ++ rest)))
      = .ok ((1, vin.map CTxIn.withoutWitness, vout), rest) := by
  rw [readAfterVin, if_pos ⟨rfl, rfl⟩, bind_of_ok (readByte_cons _ _), if_pos (by decide),
    bind_of_ok (vector_txIn_vector hvin _),
    bind_of_ok (readsBack_vector readsBack_txOut vout rest hvout), pure_apply]

theorem canonical_readAfterVin {fAllowWitness : Bool} {vin vin' : List CTxIn}
    {vout : List CTxOut} {flags : UInt8} {s rest : List UInt8}
    (h : readAfterVin fAllowWitness vin s = .ok ((flags, vin', vout), rest)) :
    VectorFits TxOutFits vout ∧
      ((flags = 0 ∧ vin' = vin ∧ s = Ser.vector Ser.txOut vout ++ rest) ∨
        (flags ≠ 0 ∧ vin = [] ∧ fAllowWitness = true ∧ VectorFits TxInRead vin' ∧
          s = flags :: (Ser.vector Ser.txIn vin' ++ (Ser.vector Ser.txOut vout ++ rest)))) := by
  unfold readAfterVin at h
  split at h
  case isTrue hempty =>
    obtain ⟨b, s₁, hb, h₁⟩ := bind_eq_ok.mp h
    obtain rfl := readByte_eq_ok.mp hb
    split at h₁
    case isTrue hne =>
      obtain ⟨vin₂, s₂, hvin₂, h₂⟩ := bind_eq_ok.mp h₁
      obtain ⟨vout₂, s₃, hvout₂, h₃⟩ := bind_eq_ok.mp h₂
      obtain ⟨heq, rfl⟩ := pure_eq_ok.mp h₃
      obtain ⟨rfl, rfl, rfl⟩ : b = flags ∧ vin₂ = vin' ∧ vout₂ = vout := by simpa using heq
      obtain ⟨hfits₂, rfl⟩ := canonical_vector canonical_txIn s₁ vin₂ s₂ hvin₂
      obtain ⟨hfitsOut, rfl⟩ := canonical_vector canonical_txOut s₂ vout₂ s₃ hvout₂
      exact ⟨hfitsOut, .inr ⟨hne, List.eq_nil_of_length_eq_zero hempty.1, hempty.2, hfits₂,
        by simp⟩⟩
    case isFalse hzero =>
      obtain ⟨heq, rfl⟩ := pure_eq_ok.mp h₁
      obtain ⟨rfl, rfl, rfl⟩ : b = flags ∧ vin = vin' ∧ ([] : List CTxOut) = vout := by
        simpa using heq
      obtain rfl : b = 0 := not_not.mp hzero
      exact ⟨⟨by simp, by simp⟩, .inl ⟨rfl, rfl, rfl⟩⟩
  case isFalse =>
    obtain ⟨vout₂, s₂, hvout₂, h₁⟩ := bind_eq_ok.mp h
    obtain ⟨heq, rfl⟩ := pure_eq_ok.mp h₁
    obtain ⟨rfl, rfl, rfl⟩ : (0 : UInt8) = flags ∧ vin = vin' ∧ vout₂ = vout := by
      simpa using heq
    obtain ⟨hfitsOut, rfl⟩ := canonical_vector canonical_txOut s vout₂ s₂ hvout₂
    exact ⟨hfitsOut, .inl ⟨rfl, rfl, rfl⟩⟩

theorem readWitnessRecord_zero (fAllowWitness : Bool) (vin : List CTxIn) (s : List UInt8) :
    readWitnessRecord fAllowWitness 0 vin s = .ok ((0, vin), s) := by
  rw [readWitnessRecord, if_neg (fun h => h.1 (by decide)), pure_apply]

theorem readWitnessRecord_one {vin : List CTxIn}
    (hw : ∀ txin ∈ vin, WitnessFits txin.scriptWitness)
    (hwit : (vin.any fun txin => !txin.scriptWitness.isNull) = true) (rest : List UInt8) :
    readWitnessRecord true 1 (vin.map CTxIn.withoutWitness)
        (vin.flatMap (fun txin => Ser.witness txin.scriptWitness) ++ rest) = .ok ((0, vin), rest) := by
  rw [readWitnessRecord, if_pos ⟨by decide, rfl⟩, bind_of_ok (readWitnesses_flatMap hw rest)]
  simp [hwit]

theorem canonical_readWitnessRecord {fAllowWitness : Bool} {flags flags' : UInt8}
    {vin vin' : List CTxIn} {s rest : List UInt8}
    (h : readWitnessRecord fAllowWitness flags vin s = .ok ((flags', vin'), rest)) :
    (flags &&& 1 ≠ 0 ∧ fAllowWitness = true ∧ flags' = flags ^^^ 1 ∧
        vin'.map CTxIn.withoutWitness = vin.map CTxIn.withoutWitness ∧
        (∀ txin ∈ vin', WitnessFits txin.scriptWitness) ∧
        (vin'.any fun txin => !txin.scriptWitness.isNull) = true ∧
        s = vin'.flatMap (fun txin => Ser.witness txin.scriptWitness) ++ rest) ∨
      (flags' = flags ∧ vin' = vin ∧ s = rest) := by
  unfold readWitnessRecord at h
  split at h
  case isTrue hbit =>
    obtain ⟨vin₂, s₂, hvin₂, h₁⟩ := bind_eq_ok.mp h
    obtain ⟨hmap, hfits, rfl⟩ := canonical_readWitnesses hvin₂
    split at h₁
    case isTrue => exact absurd h₁ throw_ne_ok
    case isFalse hany =>
      obtain ⟨heq, rfl⟩ := pure_eq_ok.mp h₁
      obtain ⟨rfl, rfl⟩ : flags ^^^ 1 = flags' ∧ vin₂ = vin' := by simpa using heq
      exact .inl ⟨hbit.1, hbit.2, rfl, hmap, hfits, by simpa using hany, rfl⟩
  case isFalse =>
    obtain ⟨heq, rfl⟩ := pure_eq_ok.mp h
    obtain ⟨rfl, rfl⟩ : flags = flags' ∧ vin = vin' := by simpa using heq
    exact .inr ⟨rfl, rfl, rfl⟩

/-! ## The round trip -/

/-- **A transaction is read back from its bytes**, whatever follows them, when it has an
input, has no `nTime` from version 3 on, and fits the limits of `ReadCompactSize`; a
stream without witnesses reads it back without them. -/
theorem unserializeTransaction_transaction (fAllowWitness : Bool) {tx : CTransaction}
    (hvin : tx.vin ≠ []) (htime : 3 ≤ tx.nVersion → tx.nTime = 0) (hfits : transactionFits tx)
    (rest : List UInt8) :
    unserializeTransaction fAllowWitness (Ser.transaction fAllowWitness tx ++ rest) =
      .ok (if fAllowWitness then tx else tx.withoutWitness, rest) := by
  obtain ⟨⟨hvinLen, hvinFits⟩, hvout⟩ := hfits
  have hsig : VectorFits (fun txin => txin.scriptSig.length ≤ maxSize) tx.vin :=
    ⟨hvinLen, fun txin h => (hvinFits txin h).1⟩
  have hw : ∀ txin ∈ tx.vin, WitnessFits txin.scriptWitness := fun txin h => (hvinFits txin h).2
  cases hwit : fAllowWitness && tx.hasWitness with
  | true =>
    obtain ⟨rfl, hhas⟩ := Bool.and_eq_true_iff.mp hwit
    rw [transaction_of_hasWitness tx hhas]
    simp only [List.append_assoc, List.cons_append]
    rw [unserializeTransaction, bind_of_ok (readVersionTime_eq htime _)]
    dsimp only
    rw [bind_of_ok (readsBack_vector readsBack_txIn [] _ ⟨by simp, by simp⟩),
      bind_of_ok (readAfterVin_extended hsig hvout _)]
    dsimp only
    rw [bind_of_ok (readWitnessRecord_one hw hhas _)]
    dsimp only
    rw [if_neg (by decide), bind_of_ok (readsBack_uint32 _ rest trivial), pure_apply, if_pos trivial]
  | false =>
    have hne : tx.vin.map CTxIn.withoutWitness ≠ [] := by simpa using hvin
    rw [transaction_of_not_hasWitness hwit]
    simp only [List.append_assoc]
    rw [unserializeTransaction, bind_of_ok (readVersionTime_eq htime _)]
    dsimp only
    rw [bind_of_ok (vector_txIn_vector hsig _), bind_of_ok (readAfterVin_of_ne_nil hne _ hvout _)]
    dsimp only
    rw [bind_of_ok (readWitnessRecord_zero _ _ _)]
    dsimp only
    rw [if_neg (by decide), bind_of_ok (readsBack_uint32 _ rest trivial), pure_apply]
    cases fAllowWitness with
    | false => rfl
    | true =>
      have hnone : (tx.vin.any fun txin => !txin.scriptWitness.isNull) = false := by
        simpa [CTransaction.hasWitness] using hwit
      rw [map_withoutWitness_eq_self hnone]
      rfl

/-- Inputs read without a witness carry none. -/
theorem any_eq_false_of_txInRead {vin : List CTxIn} (h : ∀ txin ∈ vin, TxInRead txin) :
    (vin.any fun txin => !txin.scriptWitness.isNull) = false := by
  simp only [List.any_eq_false, Bool.not_eq_true']
  intro txin htxin
  simp [(h txin htxin).2, CScriptWitness.isNull]

/-- Inputs read without a witness are their own witness-free copies. -/
theorem map_withoutWitness_of_txInRead {vin : List CTxIn} (h : ∀ txin ∈ vin, TxInRead txin) :
    vin.map CTxIn.withoutWitness = vin :=
  map_withoutWitness_eq_self (any_eq_false_of_txInRead h)

/-- **What `UnserializeTransaction` accepts is the serialization of what it returns**, a
transaction that fits the limits of `ReadCompactSize` and has no `nTime` from version 3
on. -/
theorem canonical_unserializeTransaction (fAllowWitness : Bool) :
    Canonical (fun tx => transactionFits tx ∧ (3 ≤ tx.nVersion → tx.nTime = 0))
      (Ser.transaction fAllowWitness) (unserializeTransaction fAllowWitness) := by
  intro s tx rest h
  obtain ⟨⟨v, t⟩, s₁, hvt, h₁⟩ := bind_eq_ok.mp h
  obtain ⟨htime, rfl⟩ := canonical_readVersionTime hvt
  obtain ⟨vin₁, s₂, hvin₁, h₂⟩ := bind_eq_ok.mp h₁
  obtain ⟨hfits₁, rfl⟩ := canonical_vector canonical_txIn s₁ vin₁ s₂ hvin₁
  obtain ⟨⟨flags, vin₂, vout⟩, s₃, hafter, h₃⟩ := bind_eq_ok.mp h₂
  obtain ⟨⟨flags', vin₃⟩, s₄, hrecord, h₄⟩ := bind_eq_ok.mp h₃
  dsimp only at h₄
  split at h₄
  case isTrue => exact absurd h₄ throw_ne_ok
  case isFalse hflags' =>
    obtain rfl : flags' = 0 := not_not.mp hflags'
    obtain ⟨lock, s₅, hlock, h₅⟩ := bind_eq_ok.mp h₄
    obtain ⟨rfl, rfl⟩ := pure_eq_ok.mp h₅
    obtain ⟨-, rfl⟩ := canonical_uint32 s₄ lock s₅ hlock
    obtain ⟨hvout, hcase⟩ := canonical_readAfterVin hafter
    rcases hcase with ⟨rfl, rfl, rfl⟩ | ⟨hne, rfl, rfl, hfits₂, rfl⟩
    case inl =>
      -- the plain format: no flags, so no witness record
      rcases canonical_readWitnessRecord hrecord with ⟨hbit, -⟩ | ⟨-, rfl, rfl⟩
      · exact absurd hbit (by decide)
      · refine ⟨⟨⟨⟨hfits₁.1, fun txin h => ⟨(hfits₁.2 txin h).1, ?_⟩⟩, hvout⟩, htime⟩, ?_⟩
        · rw [(hfits₁.2 txin h).2]
          exact ⟨by simp, by simp⟩
        · rw [transaction_of_not_hasWitness
            (Bool.and_eq_false_iff.mpr (.inr (any_eq_false_of_txInRead hfits₁.2)))]
          simp only [List.append_assoc]
    case inr =>
      -- the extended format: the flags must be exactly the witness bit
      rcases canonical_readWitnessRecord hrecord with
        ⟨-, -, hxor, hmap, hfits₃, hany, rfl⟩ | ⟨rfl, -, -⟩
      · obtain rfl : flags = 1 := by
          have := congrArg (· ^^^ (1 : UInt8)) hxor.symm
          simpa [UInt8.xor_assoc] using this
        rw [map_withoutWitness_of_txInRead hfits₂.2] at hmap
        have hmem : ∀ txin ∈ vin₃, txin.scriptSig.length ≤ maxSize := by
          intro txin htxin
          have hin : txin.withoutWitness ∈ vin₂ := hmap ▸ List.mem_map_of_mem htxin
          exact (hfits₂.2 _ hin).1
        have hlen : vin₃.length = vin₂.length := by rw [← hmap, List.length_map]
        refine ⟨⟨⟨⟨by rw [hlen]; exact hfits₂.1, fun txin h => ⟨hmem txin h, hfits₃ txin h⟩⟩,
          hvout⟩, htime⟩, ?_⟩
        rw [transaction_of_hasWitness ⟨vin₃, vout, v, t, lock⟩ hany,
          ← vector_txIn_map_withoutWitness vin₃, hmap]
        simp only [List.append_assoc, List.cons_append]
      · exact absurd rfl hne

/-- The transaction wire format round trip: for every stream version, a transaction with
an input, no `nTime` from version 3 on and vectors within `MAX_SIZE` is read back from its
bytes, without its witnesses when the version has `SERIALIZE_TRANSACTION_NO_WITNESS`; and
every input `UnserializeTransaction` accepts begins with the bytes of what it returns, a
transaction within the same bounds. -/
theorem unserializeTransaction_roundTrip (nVersion : Nat) :
    (∀ (tx : CTransaction) (rest : List UInt8), tx.vin ≠ [] →
        (3 ≤ tx.nVersion → tx.nTime = 0) → transactionFits tx →
        unserializeTransaction (Ser.allowWitness nVersion)
            (Ser.transaction (Ser.allowWitness nVersion) tx ++ rest) =
          .ok (if Ser.allowWitness nVersion then tx else tx.withoutWitness, rest)) ∧
      ∀ (s rest : List UInt8) (tx : CTransaction),
        unserializeTransaction (Ser.allowWitness nVersion) s = .ok (tx, rest) →
          (transactionFits tx ∧ (3 ≤ tx.nVersion → tx.nTime = 0)) ∧
            s = Ser.transaction (Ser.allowWitness nVersion) tx ++ rest := by
  refine ⟨fun tx rest hvin htime hfits => ?_, fun s rest tx h => ?_⟩
  · exact unserializeTransaction_transaction _ hvin htime hfits rest
  · exact canonical_unserializeTransaction _ s tx rest h

/-- A version-2 spend with one witness item, timestamped as version 2 allows. -/
def witnessSpend : CTransaction :=
  ⟨[⟨⟨Uint256.zero, 0⟩, [], 0xffffffff, ⟨[[1, 2, 3]]⟩⟩], [⟨5, [0x51]⟩], 2, 1700000000, 0⟩

theorem unserializeTransaction_roundTrip_witnessSpend :
    unserializeTransaction (Ser.allowWitness protocolVersion)
        (Ser.transaction (Ser.allowWitness protocolVersion) witnessSpend) =
      .ok (if Ser.allowWitness protocolVersion then witnessSpend else witnessSpend.withoutWitness,
        []) := by
  have h := (unserializeTransaction_roundTrip protocolVersion).1 witnessSpend []
    (List.cons_ne_nil _ _) (fun h => absurd h (by decide)) (by decide)
  rwa [List.append_nil] at h

/-- A version-1 transaction whose one input's `scriptSig` is one byte longer than
`MAX_SIZE`. -/
def longScriptTx : CTransaction :=
  ⟨[⟨COutPoint.null, List.replicate (maxSize + 1) 0, 0, ⟨[]⟩⟩], [], 1, 0, 0⟩

/-- `longScriptTx` has an input and no `nTime` to lose, but no stream reads it back: its
script's count is over `MAX_SIZE`. -/
theorem unserializeTransaction_rejects_longScriptTx :
    longScriptTx.vin ≠ [] ∧ (3 ≤ longScriptTx.nVersion → longScriptTx.nTime = 0) ∧
      ∀ (nVersion : Nat) (rest : List UInt8),
        unserializeTransaction (Ser.allowWitness nVersion)
            (Ser.transaction (Ser.allowWitness nVersion) longScriptTx ++ rest) ≠
          .ok (if Ser.allowWitness nVersion then longScriptTx else longScriptTx.withoutWitness,
            rest) := by
  refine ⟨List.cons_ne_nil _ _, fun _ => rfl, fun nVersion rest h => ?_⟩
  have hfits := (canonical_unserializeTransaction _ _ _ _ h).1.1.1.2
  have hlong : ∀ txin ∈ (if Ser.allowWitness nVersion then longScriptTx
      else longScriptTx.withoutWitness).vin, txin.scriptSig.length = maxSize + 1 := by
    split <;> simp [longScriptTx, CTransaction.withoutWitness, CTxIn.withoutWitness]
  obtain ⟨txin, hmem⟩ : ∃ txin, txin ∈ (if Ser.allowWitness nVersion then longScriptTx
      else longScriptTx.withoutWitness).vin := by
    split <;> exact ⟨_, List.mem_cons_self⟩
  have := (hfits txin hmem).1
  rw [hlong txin hmem] at this
  omega

end Unser

end Sumcoin
