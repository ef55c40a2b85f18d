import Sumcoin.Validation.CheckBlock
import Sumcoin.Lib.SipHash
import Sumcoin.Lib.Except

/-!
# Compact blocks: `CBlockHeaderAndShortTxIDs` and `PartiallyDownloadedBlock`
(`blockencodings.cpp`)

A peer announces a block as its header, its block signature, the coinbase and a 48-bit
short ID for each other transaction: SipHash of the txid (or the witness hash) under
keys drawn from the SHA-256 of the header and a random nonce.  The receiver's `InitData`
places the prefilled transactions, maps each short ID to the slot it fills, and fills
those slots from its mempool and its extra pool, keyed by witness hash; a slot two pool
transactions claim is emptied again.  `FillBlock` then takes the missing transactions in
slot order and runs `CheckBlock` on the result, reading a `BLOCK_MUTATED` failure as a
possible short-ID collision.

What the reconstruction gives (`fillBlock_initData_ofBlock`): the announced header,
`nFlags` included, and signature; at each slot the block's transaction or a pool
transaction with the same short ID; and the block itself, accepted, when no other pool
transaction has a short ID of the block and the block's unmarked copy passes
`CheckBlock`.  The last condition is not that the block passes `CheckBlock`: the memo
`fChecked` of the sender's object does not travel (`fillBlock_checkedBlock_checkblockFailed`).

`std::unordered_map` is an association list of distinct keys; its bucket function, a
detail of the standard library fixed by the bucket count the map is built with, is a
parameter.  The pools are lists of `(hash, transaction)` pairs, the mempool's being its
`vTxHashes`.  A failed `InitData` is an error: the caller drops the partial block.

## Main definitions

* `sipHashUint256`, `fillShortTxIDSelector`, `CBlockHeaderAndShortTxIDs.getShortID`,
  `CBlockHeaderAndShortTxIDs.ofBlock`.
* `placePrefilled`, `mapShortIds`, `matchTx`, `matchPool`, `initData`.
* `fillSlots`, `readStatusOf`, `fillBlock`, `missingTxs`.
-/

namespace Sumcoin

/-- `MIN_SERIALIZABLE_TRANSACTION_WEIGHT`. -/
def minSerializableTransactionWeight : Nat := witnessScaleFactor * 10

/-- `uint256::GetUint64(pos)`: bytes `8 pos` to `8 pos + 7`, little-endian. -/
def Uint256.getUint64 (a : Uint256) (pos : Nat) : UInt64 :=
  UInt64.ofNat (((a.data.toList.drop (8 * pos)).take 8).foldr (fun b acc => b.toNat + 256 * acc) 0)

/-- `SipHashUint256(k0, k1, val)`: SipHash-2-4 of the 32 bytes of `val`. -/
def sipHashUint256 (k0 k1 : UInt64) (val : Uint256) : UInt64 :=
  SipHash.hashWords k0 k1 [val.getUint64 0, val.getUint64 1, val.getUint64 2, val.getUint64 3]

/-- The test vector of `hash_tests.cpp`: the bytes `0, 1, …, 31` under the keys
`0x0706050403020100` and `0x0F0E0D0C0B0A0908`. -/
example : sipHashUint256 0x0706050403020100 0x0F0E0D0C0B0A0908
    ⟨⟨((List.range 32).map Nat.toUInt8).toArray, rfl⟩⟩ = 0x7127512f72f27cce := by
  decide +kernel

/-- `CBlockHeader::IsNull()`. -/
def CBlockHeader.isNull (h : CBlockHeader) : Bool := h.nBits == 0

/-- `CTransaction::IsNull()`. -/
def CTransaction.isNull (tx : CTransaction) : Bool := tx.vin.isEmpty && tx.vout.isEmpty

/-- `ReadStatus`. -/
inductive ReadStatus where
  | ok
  | invalid
  | failed
  | checkblockFailed
  deriving DecidableEq, Repr

/-- `PrefilledTransaction`: in a `CBlockHeaderAndShortTxIDs` its index counts from the
slot after the previous prefilled transaction. -/
structure PrefilledTransaction where
  index : UInt16
  tx : CTransaction
  deriving DecidableEq, Repr

/-- `CBlockHeaderAndShortTxIDs`, with the keys `FillShortTxIDSelector` stores. -/
structure CBlockHeaderAndShortTxIDs where
  shorttxidk0 : UInt64
  shorttxidk1 : UInt64
  nonce : UInt64
  shorttxids : List UInt64
  prefilledtxn : List PrefilledTransaction
  header : CBlockHeader
  vchBlockSig : List UInt8
  deriving DecidableEq, Repr

/-- `FillShortTxIDSelector()`: the first two words of the SHA-256 of the header, as a
`SER_NETWORK` stream writes it, and the nonce. -/
def fillShortTxIDSelector (header : CBlockHeader) (nonce : UInt64) : UInt64 × UInt64 :=
  let shorttxidhash : Uint256 :=
    ⟨⟨(Sha256.sha256 (Ser.header serNetwork header ++ Ser.le 8 nonce.toNat)).toArray,
      by simp [Sha256.length_sha256]⟩⟩
  (shorttxidhash.getUint64 0, shorttxidhash.getUint64 1)

namespace CBlockHeaderAndShortTxIDs

/-- `GetShortID(txhash)`: the low 48 bits of `SipHashUint256` under the stored keys. -/
def getShortID (c : CBlockHeaderAndShortTxIDs) (txhash : Uint256) : UInt64 :=
  sipHashUint256 c.shorttxidk0 c.shorttxidk1 txhash &&& 0xffffffffffff

/-- `BlockTxCount()`. -/
def blockTxCount (c : CBlockHeaderAndShortTxIDs) : Nat := c.shorttxids.length + c.prefilledtxn.length

end CBlockHeaderAndShortTxIDs

section

variable (hash256 : List UInt8 → Uint256)

/-- The hash a short ID is taken of: the witness hash with `fUseWTXID`, else the txid. -/
def shortIdHash (fUseWTXID : Bool) (tx : CTransaction) : Uint256 :=
  if fUseWTXID then tx.getWitnessHash hash256 else tx.getHash hash256

/-- `CBlockHeaderAndShortTxIDs(block, fUseWTXID)`, with `nonce` the draw of `GetRand`:
the header with its `nFlags`, the signature, the coinbase prefilled at index 0, and a
short ID for every other transaction.  The source reads `vtx[0]` of an empty block; the
model prefills a null transaction there. -/
def CBlockHeaderAndShortTxIDs.ofBlock (block : CBlock) (fUseWTXID : Bool) (nonce : UInt64) :
    CBlockHeaderAndShortTxIDs :=
  let keys := fillShortTxIDSelector block.header nonce
  let c : CBlockHeaderAndShortTxIDs :=
    ⟨keys.1, keys.2, nonce, [], [⟨0, block.vtx.headD ⟨[], [], 0, 0, 0⟩⟩], block.header,
      block.vchBlockSig⟩
  { c with shorttxids := (block.vtx.drop 1).map fun tx => c.getShortID (shortIdHash hash256 fUseWTXID tx) }

end

/-! ## `InitData` -/

/-- The prefilled loop of `InitData` from prefilled transaction `i` on, with
`lastprefilledindex` the slot of the one before: each goes `index + 1` slots further,
never past slot `65535` nor past the short IDs and the prefilled transactions so far. -/
def placePrefilled (nShort : Nat) :
    Nat → Int → List PrefilledTransaction → List (Option CTransaction) →
      Except ReadStatus (List (Option CTransaction))
  | _, _, [], txn => pure txn
  | i, lastprefilledindex, p :: ps, txn =>
    if p.tx.isNull then throw .invalid
    else
      let lastprefilledindex := lastprefilledindex + p.index.toNat + 1
      if lastprefilledindex > 65535 then throw .invalid
      else if lastprefilledindex.toNat > nShort + i then throw .invalid
      else placePrefilled nShort (i + 1) lastprefilledindex ps
        (txn.set lastprefilledindex.toNat (some p.tx))

/-- The map from short IDs to slots, `std::unordered_map<uint64_t, uint16_t>`, as an
association list of distinct keys. -/
abbrev ShortIdMap := List (UInt64 × UInt16)

/-- `shorttxids[k] = v`: the entry of `k`, in place of any it had. -/
def ShortIdMap.insert (m : ShortIdMap) (k : UInt64) (v : UInt16) : ShortIdMap :=
  (k, v) :: m.filter fun e => e.1 != k

/-- `bucket_size(bucket(k))`: the entries in the bucket of `k`. -/
def ShortIdMap.bucketSize (bucket : UInt64 → Nat) (m : ShortIdMap) (k : UInt64) : Nat :=
  (m.filter fun e => bucket e.1 = bucket k).length

/-- `while (txn_available[i + index_offset]) index_offset++` with the `uint16_t`
`index_offset`, for at most `fuel` rounds: the offset of the first free slot, or `none`
when every round finds its slot taken.  The offset wraps at `2^16`, so after `2^16` rounds
the loop is back where it started and never ends.  The slots it reads lie in
`txn_available`: without a wrap the offset counts prefilled slots only. -/
def skipAvailable (txn : List (Option CTransaction)) (i : Nat) : Nat → UInt16 → Option UInt16
  | 0, _ => none
  | fuel + 1, indexOffset =>
    if (txn.getD (i + indexOffset.toNat) none).isSome then
      skipAvailable txn i fuel (indexOffset + 1)
    else some indexOffset

/-- The short-ID loop of `InitData` from short ID `i` on: each goes to the next free
slot, whose number `i + index_offset` is stored as a `uint16_t`, and a bucket of more than
12 entries fails; `none` when the skip loop never ends. -/
def mapShortIds (bucket : UInt64 → Nat) (txn : List (Option CTransaction)) :
    Nat → UInt16 → List UInt64 → ShortIdMap → Option (Except ReadStatus ShortIdMap)
  | _, _, [], m => some (pure m)
  | i, indexOffset, s :: ss, m => do
    let indexOffset ← skipAvailable txn i 65536 indexOffset
    let m := m.insert s (i + indexOffset.toNat).toUInt16
    if m.bucketSize bucket s > 12 then some (throw .failed)
    else mapShortIds bucket txn (i + 1) indexOffset ss m

/-- What the two pool loops of `InitData` carry. -/
structure MatchState where
  txnAvailable : List (Option CTransaction)
  haveTxn : List Bool
  mempoolCount : Nat
  extraCount : Nat

section

variable (hash256 : List UInt8 → Uint256)

/-- One pass of a pool loop of `InitData` on the entry `(h, tx)`: a transaction whose
short ID is mapped fills its slot the first time; a second claim empties the slot, except
that an extra transaction with the witness hash of the one there leaves it. -/
def matchTx (getShortID : Uint256 → UInt64) (m : ShortIdMap) (fExtra : Bool)
    (entry : Uint256 × CTransaction) (st : MatchState) : MatchState :=
  match m.lookup (getShortID entry.1) with
  | none => st
  | some idx =>
    if !st.haveTxn.getD idx.toNat false then
      { txnAvailable := st.txnAvailable.set idx.toNat (some entry.2)
        haveTxn := st.haveTxn.set idx.toNat true
        mempoolCount := st.mempoolCount + 1
        extraCount := if fExtra then st.extraCount + 1 else st.extraCount }
    else
      match st.txnAvailable.getD idx.toNat none with
      | none => st
      | some t =>
        if fExtra && t.getWitnessHash hash256 == entry.2.getWitnessHash hash256 then st
        else
          { st with
            txnAvailable := st.txnAvailable.set idx.toNat none
            mempoolCount := st.mempoolCount - 1
            extraCount := if fExtra then st.extraCount - 1 else st.extraCount }

/-- A pool loop of `InitData`, the mempool's (`fExtra = false`) or the extra pool's: it
stops once as many transactions are found as there are short IDs. -/
def matchPool (getShortID : Uint256 → UInt64) (m : ShortIdMap) (fExtra : Bool) :
    List (Uint256 × CTransaction) → MatchState → MatchState
  | [], st => st
  | entry :: pool, st =>
    let st := matchTx hash256 getShortID m fExtra entry st
    if st.mempoolCount = m.length then st else matchPool getShortID m fExtra pool st

end

/-- `PartiallyDownloadedBlock` after `InitData`. -/
structure PartiallyDownloadedBlock where
  txnAvailable : List (Option CTransaction)
  prefilledCount : Nat
  mempoolCount : Nat
  extraCount : Nat
  header : CBlockHeader
  vchBlockSig : List UInt8

section

variable (hash256 : List UInt8 → Uint256)

/-- `PartiallyDownloadedBlock::InitData(cmpctblock, extra_txn)` on a fresh block, with
the mempool's `vTxHashes`; `none` when the short-ID loop never ends. -/
def initData (bucket : UInt64 → Nat) (vTxHashes : List (Uint256 × CTransaction))
    (cmpctblock : CBlockHeaderAndShortTxIDs) (extraTxn : List (Uint256 × CTransaction)) :
    Option (Except ReadStatus PartiallyDownloadedBlock) :=
  if cmpctblock.header.isNull || (cmpctblock.shorttxids.isEmpty && cmpctblock.prefilledtxn.isEmpty) then
    some (throw .invalid)
  else if cmpctblock.shorttxids.length + cmpctblock.prefilledtxn.length >
      maxBlockWeight / minSerializableTransactionWeight then
    some (throw .invalid)
  else
    match placePrefilled cmpctblock.shorttxids.length 0 (-1) cmpctblock.prefilledtxn
        (List.replicate cmpctblock.blockTxCount none) with
    | .error e => some (.error e)
    | .ok txn =>
      (mapShortIds bucket txn 0 0 cmpctblock.shorttxids []).map fun r => do
        let m ← r
        if m.length ≠ cmpctblock.shorttxids.length then throw .failed
        else
          let st : MatchState := ⟨txn, List.replicate txn.length false, 0, 0⟩
          let st := matchPool hash256 cmpctblock.getShortID m false vTxHashes st
          let st := matchPool hash256 cmpctblock.getShortID m true extraTxn st
          pure ⟨st.txnAvailable, cmpctblock.prefilledtxn.length, st.mempoolCount, st.extraCount,
            cmpctblock.header, cmpctblock.vchBlockSig⟩

end

/-- `IsTxAvailable(index)`. -/
def PartiallyDownloadedBlock.isTxAvailable (pdb : PartiallyDownloadedBlock) (index : Nat) : Bool :=
  (pdb.txnAvailable.getD index none).isSome

/-! ## `FillBlock` -/

/-- The loop of `FillBlock`: a free slot takes the next missing transaction, and the
missing transactions left over are returned; running out is `none`. -/
def fillSlots :
    List (Option CTransaction) → List CTransaction → Option (List CTransaction × List CTransaction)
  | [], missing => some ([], missing)
  | none :: _, [] => none
  | none :: txn, tx :: missing => (fillSlots txn missing).map fun r => (tx :: r.1, r.2)
  | some tx :: txn, missing => (fillSlots txn missing).map fun r => (tx :: r.1, r.2)

/-- How `FillBlock` reads the end of `CheckBlock`: `BLOCK_MUTATED` is a possible short-ID
collision, any other failure is `READ_STATUS_CHECKBLOCK_FAILED`, and an exception leaves
`FillBlock`. -/
def readStatusOf : Except BlockFailure Unit × CBlock → Except String (ReadStatus × CBlock)
  | (.ok (), block) => pure (.ok, block)
  | (.error (.invalid .blockMutated _ _), block) => pure (.failed, block)
  | (.error (.thrown what), _) => throw what
  | (.error _, block) => pure (.checkblockFailed, block)

section

variable (hash256 : List UInt8 → Uint256) (verify : List UInt8 → Uint256 → List UInt8 → Bool)
  (chainparams : ChainParams)

/-- `PartiallyDownloadedBlock::FillBlock(block, vtx_missing)`: the status and the block
it leaves.  When the missing transactions run out, the partly filled `vtx` is left out. -/
def fillBlock (pdb : PartiallyDownloadedBlock) (vtxMissing : List CTransaction) :
    Except String (ReadStatus × CBlock) :=
  let block : CBlock := ⟨pdb.header, [], pdb.vchBlockSig, false⟩
  match fillSlots pdb.txnAvailable vtxMissing with
  | none => pure (.invalid, block)
  | some (vtx, rest) =>
    let block := { block with vtx := vtx }
    if !rest.isEmpty then pure (.invalid, block)
    else readStatusOf (checkBlock hash256 verify chainparams block true true true)

end

/-- The transactions of `vtx` at the slots that are not available, in slot order: what
the receiver asks for with `getblocktxn` and passes to `FillBlock`. -/
def missingTxs (txn : List (Option CTransaction)) (vtx : List CTransaction) : List CTransaction :=
  (txn.zip vtx).filterMap fun p => if p.1.isNone then some p.2 else none

/-! ## The short-ID map -/

namespace ShortIdMap

/-- Erasing the entries of `k` leaves the other keys' values. -/
theorem lookup_filter_ne (k : UInt64) {k' : UInt64} (h : k' ≠ k) :
    ∀ m : ShortIdMap, (m.filter fun e => e.1 != k).lookup k' = m.lookup k'
  | [] => rfl
  | (k₀, v₀) :: m => by
    by_cases he : k₀ = k
    · -- the erased entry: `k'` is not its key
      subst he
      have hk' : (k' == k₀) = false := by simpa using h
      simp [List.lookup_cons, hk', lookup_filter_ne k₀ h m]
    · cases hk' : k' == k₀ <;> simp [he, List.lookup_cons, hk', lookup_filter_ne k h m]

theorem lookup_insert (m : ShortIdMap) (k : UInt64) (v : UInt16) (k' : UInt64) :
    (m.insert k v).lookup k' = if k' = k then some v else m.lookup k' := by
  by_cases h : k' = k
  · simp [insert, h]
  · have hk : (k' == k) = false := by simpa using h
    rw [insert, List.lookup_cons, hk, if_neg h, lookup_filter_ne k h]

end ShortIdMap

/-- With the coinbase in slot 0 and the other slots free, the first free slot from any
short ID on is the one after it. -/
theorem skipAvailable_of_free {txn : List (Option CTransaction)} {i fuel : Nat} {o : UInt16}
    (h : (txn.getD (i + o.toNat) none).isSome = false) : skipAvailable txn i (fuel + 1) o = some o := by
  rw [skipAvailable, if_neg (by rw [h]; exact Bool.false_ne_true)]

theorem skipAvailable_of_taken {txn : List (Option CTransaction)} {i fuel : Nat} {o : UInt16}
    (h : (txn.getD (i + o.toNat) none).isSome = true) :
    skipAvailable txn i (fuel + 1) o = skipAvailable txn i fuel (o + 1) := by
  rw [skipAvailable, if_pos h]

theorem skipAvailable_coinbase {tx0 : CTransaction} {n i : Nat} {o : UInt16}
    (ho : o = 1 ∨ (i = 0 ∧ o = 0)) :
    skipAvailable (some tx0 :: List.replicate n none) i 65536 o = some 1 := by
  have hfree : ∀ j, ((some tx0 :: List.replicate n none).getD (j + 1) none).isSome = false := by
    intro j
    simp only [List.getD_eq_getElem?_getD, List.getElem?_cons_succ, List.getElem?_replicate]
    split <;> rfl
  rcases ho with rfl | ⟨rfl, rfl⟩
  · exact skipAvailable_of_free (hfree i)
  · rw [skipAvailable_of_taken rfl]
    exact skipAvailable_of_free (hfree 0)

/-- With the coinbase in slot 0 and the other slots free, the map `InitData` builds
sends short ID `j` to slot `j + 1`: from short ID `i` on, each entry the loop leaves was
there before or is short ID `i + j` at slot `i + j + 1`.  The induction is on the short
IDs left, with the offset `1` once the coinbase is skipped. -/
theorem mapShortIds_coinbase {bucket : UInt64 → Nat} {tx0 : CTransaction} {n : Nat} :
    ∀ {ss : List UInt64} {i : Nat} {o : UInt16} {m m' : ShortIdMap}, (o = 1 ∨ (i = 0 ∧ o = 0)) →
      i + ss.length ≤ 65535 →
      mapShortIds bucket (some tx0 :: List.replicate n none) i o ss m = some (.ok m') →
      ∀ k v, m'.lookup k = some v → m.lookup k = some v ∨ ∃ j, v.toNat = i + j + 1 ∧ ss[j]? = some k
  | [], _, _, _, _, _, _, h => by
    intro k v hk
    cases h
    exact .inl hk
  | s :: ss, i, o, m, m', ho, hlen, h => by
    intro k v hk
    rw [mapShortIds, skipAvailable_coinbase ho, Option.bind_eq_bind, Option.bind_some] at h
    dsimp only at h
    split_ifs at h
    case pos => cases h
    case neg =>
      rcases mapShortIds_coinbase (.inl rfl) (by simp at hlen; omega) h k v hk with hk | ⟨j, hv, hj⟩
      · -- the entry of short ID `i`, or one from before: below `2^16`, its slot is `i + 1`
        rw [ShortIdMap.lookup_insert] at hk
        split at hk
        case isTrue hks =>
          have hslot : (i + (1 : UInt16).toNat).toUInt16.toNat = i + 0 + 1 := by
            simp only [List.length_cons] at hlen
            show (i + 1).toUInt16.toNat = i + 0 + 1
            rw [Nat.toUInt16_eq, UInt16.toNat_ofNat', Nat.mod_eq_of_lt (by omega)]
          exact .inr ⟨0, (Option.some.inj hk) ▸ hslot, by simp [hks]⟩
        case isFalse => exact .inl hk
      · exact .inr ⟨j + 1, by omega, hj⟩

/-! ## The pool loops -/

section

variable {hash256 : List UInt8 → Uint256} {getShortID : Uint256 → UInt64} {m : ShortIdMap}
  {fExtra : Bool}

theorem length_matchTx (entry : Uint256 × CTransaction) (st : MatchState) :
    (matchTx hash256 getShortID m fExtra entry st).txnAvailable.length = st.txnAvailable.length := by
  unfold matchTx
  split
  · rfl
  · split
    · simp
    · split
      · rfl
      · split <;> simp

/-- A slot no key of the entry maps to keeps what it held. -/
theorem getElem?_matchTx_of_ne {entry : Uint256 × CTransaction} {st : MatchState} {j : Nat}
    (hj : ∀ idx, m.lookup (getShortID entry.1) = some idx → idx.toNat ≠ j) :
    (matchTx hash256 getShortID m fExtra entry st).txnAvailable[j]? = st.txnAvailable[j]? := by
  unfold matchTx
  split
  · rfl
  case h_2 idx hidx =>
    have hne := hj idx hidx
    split
    · simp [hne]
    · split
      · rfl
      · split
        · rfl
        · simp [hne]

/-- **What one pass can put in a slot**: what was there, or the entry's transaction in
the slot its short ID maps to. -/
theorem getElem?_matchTx {entry : Uint256 × CTransaction} {st : MatchState} {j : Nat}
    {P : CTransaction}
    (h : (matchTx hash256 getShortID m fExtra entry st).txnAvailable[j]? = some (some P)) :
    st.txnAvailable[j]? = some (some P) ∨
      (P = entry.2 ∧ ∃ idx, m.lookup (getShortID entry.1) = some idx ∧ idx.toNat = j) := by
  unfold matchTx at h
  split at h
  · exact .inl h
  case h_2 idx hidx =>
    split at h
    · -- the first claim fills the slot
      rw [List.getElem?_set] at h
      split at h
      case isTrue hij =>
        split at h
        · exact .inr ⟨(Option.some.inj (Option.some.inj h)).symm, idx, hidx, hij⟩
        · cases h
      case isFalse => exact .inl h
    · split at h
      · exact .inl h
      · split at h
        · exact .inl h
        · -- a second claim empties the slot
          rw [List.getElem?_set] at h
          split at h
          · split at h <;> simp at h
          · exact .inl h

theorem length_matchPool :
    ∀ (pool : List (Uint256 × CTransaction)) (st : MatchState),
      (matchPool hash256 getShortID m fExtra pool st).txnAvailable.length = st.txnAvailable.length
  | [], _ => rfl
  | entry :: pool, st => by
    rw [matchPool]
    split
    · exact length_matchTx entry st
    · rw [length_matchPool pool, length_matchTx]

theorem getElem?_matchPool_of_ne {j : Nat} :
    ∀ (pool : List (Uint256 × CTransaction)) (st : MatchState),
      (∀ entry ∈ pool, ∀ idx, m.lookup (getShortID entry.1) = some idx → idx.toNat ≠ j) →
      (matchPool hash256 getShortID m fExtra pool st).txnAvailable[j]? = st.txnAvailable[j]?
  | [], _, _ => rfl
  | entry :: pool, st, hj => by
    have hhead := @getElem?_matchTx_of_ne hash256 getShortID m fExtra entry st j
      (hj entry List.mem_cons_self)
    rw [matchPool]
    split
    · exact hhead
    · rw [getElem?_matchPool_of_ne pool _ fun e he => hj e (List.mem_cons_of_mem _ he), hhead]

/-- **What a pool loop can put in a slot**: what was there, or a pool transaction in the
slot its short ID maps to. -/
theorem getElem?_matchPool {j : Nat} {P : CTransaction} :
    ∀ (pool : List (Uint256 × CTransaction)) (st : MatchState),
      (matchPool hash256 getShortID m fExtra pool st).txnAvailable[j]? = some (some P) →
      st.txnAvailable[j]? = some (some P) ∨
        ∃ entry ∈ pool, P = entry.2 ∧ ∃ idx, m.lookup (getShortID entry.1) = some idx ∧ idx.toNat = j
  | [], _, h => .inl h
  | entry :: pool, st, h => by
    rw [matchPool] at h
    -- after the break or after the rest of the loop, back to the pass on `entry`
    have hpass : (matchTx hash256 getShortID m fExtra entry st).txnAvailable[j]? = some (some P) ∨
        ∃ e ∈ pool, P = e.2 ∧ ∃ idx, m.lookup (getShortID e.1) = some idx ∧ idx.toNat = j := by
      split at h
      · exact .inl h
      · exact getElem?_matchPool pool _ h
    rcases hpass with hpass | ⟨e, he, hP⟩
    · rcases getElem?_matchTx hpass with hst | hP
      · exact .inl hst
      · exact .inr ⟨entry, List.mem_cons_self, hP⟩
    · exact .inr ⟨e, List.mem_cons_of_mem _ he, hP⟩

end

/-! ## `InitData` on an announced block -/

section

variable (hash256 : List UInt8 → Uint256) (b : CBlock) (fUseWTXID : Bool) (nonce : UInt64)

namespace CBlockHeaderAndShortTxIDs

@[simp] theorem header_ofBlock : (ofBlock hash256 b fUseWTXID nonce).header = b.header := rfl

@[simp] theorem vchBlockSig_ofBlock :
    (ofBlock hash256 b fUseWTXID nonce).vchBlockSig = b.vchBlockSig := rfl

theorem prefilledtxn_ofBlock :
    (ofBlock hash256 b fUseWTXID nonce).prefilledtxn = [⟨0, b.vtx.headD ⟨[], [], 0, 0, 0⟩⟩] := rfl

theorem shorttxids_ofBlock :
    (ofBlock hash256 b fUseWTXID nonce).shorttxids = (b.vtx.drop 1).map fun tx =>
      (ofBlock hash256 b fUseWTXID nonce).getShortID (shortIdHash hash256 fUseWTXID tx) := rfl

end CBlockHeaderAndShortTxIDs

end

/-- The prefilled loop on the coinbase alone puts it in slot 0. -/
theorem placePrefilled_coinbase {n : Nat} {tx0 : CTransaction} {txn : List (Option CTransaction)}
    (h : placePrefilled n 0 (-1) [⟨0, tx0⟩] (List.replicate (n + 1) none) = .ok txn) :
    txn = some tx0 :: List.replicate n none := by
  simp [placePrefilled] at h
  obtain ⟨-, rfl⟩ := h
  simp [List.replicate_succ]

section

variable {hash256 : List UInt8 → Uint256} {bucket : UInt64 → Nat}
  {vTxHashes extraTxn : List (Uint256 × CTransaction)}

/-- What a successful `InitData` ran: the prefilled loop, the short-ID loop, and the two
pool loops from the slots the first left, which give the slots it ends with. -/
theorem initData_eq_ok {c : CBlockHeaderAndShortTxIDs} {pdb : PartiallyDownloadedBlock}
    (h : initData hash256 bucket vTxHashes c extraTxn = some (.ok pdb)) :
    ∃ txn m, placePrefilled c.shorttxids.length 0 (-1) c.prefilledtxn
        (List.replicate c.blockTxCount none) = .ok txn ∧
      mapShortIds bucket txn 0 0 c.shorttxids [] = some (.ok m) ∧
      pdb.header = c.header ∧ pdb.vchBlockSig = c.vchBlockSig ∧
      pdb.txnAvailable = (matchPool hash256 c.getShortID m true extraTxn
        (matchPool hash256 c.getShortID m false vTxHashes
          ⟨txn, List.replicate txn.length false, 0, 0⟩)).txnAvailable := by
  unfold initData at h
  split_ifs at h
  case pos => cases h
  case pos => cases h
  case neg =>
    split at h
    case h_1 => cases h
    case h_2 txn htxn =>
      obtain ⟨r, hr, hok⟩ := Option.map_eq_some_iff.mp h
      simp only [Except.bind_eq_ok, Except.ite_throw_eq_ok, Except.pure_eq_ok] at hok
      obtain ⟨m, rfl, -, rfl⟩ := hok
      exact ⟨txn, m, htxn, hr, rfl, rfl, rfl⟩

/-- **The slots after `InitData`** on the announcement of a block `tx0 :: rest`: the
header and signature are the block's, slot 0 holds the coinbase, and a filled slot
`j + 1` holds a pool transaction with the short ID of `rest[j]`. -/
theorem initData_ofBlock_slots {b : CBlock} {tx0 : CTransaction} {rest : List CTransaction}
    (hv : b.vtx = tx0 :: rest) (hsize : b.vtx.length ≤ 65536) {fUseWTXID : Bool} {nonce : UInt64}
    {pdb : PartiallyDownloadedBlock}
    (hinit : initData hash256 bucket vTxHashes
      (CBlockHeaderAndShortTxIDs.ofBlock hash256 b fUseWTXID nonce) extraTxn = some (.ok pdb)) :
    pdb.header = b.header ∧ pdb.vchBlockSig = b.vchBlockSig ∧
      pdb.txnAvailable.length = b.vtx.length ∧ pdb.txnAvailable[0]? = some (some tx0) ∧
      ∀ j P, pdb.txnAvailable[j + 1]? = some (some P) →
        ∃ entry ∈ vTxHashes ++ extraTxn, P = entry.2 ∧ ∃ tx, rest[j]? = some tx ∧
          (CBlockHeaderAndShortTxIDs.ofBlock hash256 b fUseWTXID nonce).getShortID entry.1 =
            (CBlockHeaderAndShortTxIDs.ofBlock hash256 b fUseWTXID nonce).getShortID
              (shortIdHash hash256 fUseWTXID tx) := by
  set c := CBlockHeaderAndShortTxIDs.ofBlock hash256 b fUseWTXID nonce with hc
  obtain ⟨txn, m, htxn, hm, hheader, hsig, havail⟩ := initData_eq_ok hinit
  have hshort : c.shorttxids = rest.map fun tx => c.getShortID (shortIdHash hash256 fUseWTXID tx) := by
    rw [hc, CBlockHeaderAndShortTxIDs.shorttxids_ofBlock, hv, List.drop_one, List.tail_cons]
  have hpre : c.prefilledtxn = [⟨0, tx0⟩] := by
    rw [hc, CBlockHeaderAndShortTxIDs.prefilledtxn_ofBlock, hv, List.headD_cons]
  have hcount : c.blockTxCount = rest.length + 1 := by
    simp [CBlockHeaderAndShortTxIDs.blockTxCount, hshort, hpre]
  rw [hpre, hcount, hshort, List.length_map] at htxn
  obtain rfl := placePrefilled_coinbase htxn
  -- every key of the map goes to the slot after the index of its short ID: below `2^16`
  -- slots the `uint16_t` does not wrap
  have hmap : ∀ k v, m.lookup k = some v → ∃ j, v.toNat = j + 1 ∧ c.shorttxids[j]? = some k := by
    intro k v hk
    have hlen : 0 + c.shorttxids.length ≤ 65535 := by
      rw [hshort, List.length_map]
      rw [hv, List.length_cons] at hsize
      omega
    rcases mapShortIds_coinbase (.inr ⟨rfl, rfl⟩) hlen hm k v hk with h | ⟨j, hv, hj⟩
    · simp at h
    · exact ⟨j, by omega, hj⟩
  have hnot0 : ∀ entry ∈ vTxHashes ++ extraTxn, ∀ idx, m.lookup (c.getShortID entry.1) = some idx →
      idx.toNat ≠ 0 := by
    intro entry _ idx hidx
    obtain ⟨j, hj, -⟩ := hmap _ _ hidx
    omega
  refine ⟨hheader, hsig, ?_, ?_, ?_⟩
  · rw [havail, length_matchPool, length_matchPool]
    simp [hv]
  · rw [havail, getElem?_matchPool_of_ne _ _ fun e he => hnot0 e (List.mem_append_right _ he),
      getElem?_matchPool_of_ne _ _ fun e he => hnot0 e (List.mem_append_left _ he)]
    rfl
  · intro j P hP
    rw [havail] at hP
    -- the slot was filled by one of the two pool loops: the initial slot `j + 1` is free
    have hfill : ∃ entry ∈ vTxHashes ++ extraTxn, P = entry.2 ∧
        ∃ idx, m.lookup (c.getShortID entry.1) = some idx ∧ idx.toNat = j + 1 := by
      rcases getElem?_matchPool _ _ hP with hP | ⟨e, he, hPe⟩
      · rcases getElem?_matchPool _ _ hP with hP | ⟨e, he, hPe⟩
        · simp [List.getElem?_replicate] at hP
        · exact ⟨e, List.mem_append_left _ he, hPe⟩
      · exact ⟨e, List.mem_append_right _ he, hPe⟩
    obtain ⟨entry, hentry, rfl, idx, hlook, hidx⟩ := hfill
    obtain ⟨j', hj', hkey⟩ := hmap _ _ hlook
    obtain rfl : j' = j := by omega
    rw [hshort, List.getElem?_map, Option.map_eq_some_iff] at hkey
    obtain ⟨tx, htx, hid⟩ := hkey
    exact ⟨entry, hentry, rfl, tx, htx, hid.symm⟩

end

/-! ## `FillBlock` -/

@[simp] theorem missingTxs_cons_none (txn : List (Option CTransaction)) (tx : CTransaction)
    (vtx : List CTransaction) : missingTxs (none :: txn) (tx :: vtx) = tx :: missingTxs txn vtx := rfl

@[simp] theorem missingTxs_cons_some (P : CTransaction) (txn : List (Option CTransaction))
    (tx : CTransaction) (vtx : List CTransaction) :
    missingTxs (some P :: txn) (tx :: vtx) = missingTxs txn vtx := rfl

/-- Given the block's transactions at the free slots in order, the loop of `FillBlock`
puts each in its slot and leaves what follows them. -/
theorem fillSlots_missingTxs :
    ∀ (txn : List (Option CTransaction)) (vtx : List CTransaction), txn.length = vtx.length →
      ∀ extra, fillSlots txn (missingTxs txn vtx ++ extra) =
        some (List.zipWith (fun o tx => o.getD tx) txn vtx, extra)
  | [], [], _, _ => rfl
  | none :: txn, tx :: vtx, hlen, extra => by
    rw [missingTxs_cons_none, List.cons_append, fillSlots,
      fillSlots_missingTxs txn vtx (by simpa using hlen) extra]
    rfl
  | some P :: txn, tx :: vtx, hlen, extra => by
    rw [missingTxs_cons_some, fillSlots, fillSlots_missingTxs txn vtx (by simpa using hlen) extra]
    rfl

section

variable (hash256 : List UInt8 → Uint256) (verify : List UInt8 → Uint256 → List UInt8 → Bool)
  (chainparams : ChainParams)

/-- Given the block's transactions at the free slots in order, `FillBlock` returns what
`CheckBlock` makes of the block the slots give. -/
theorem fillBlock_missingTxs (pdb : PartiallyDownloadedBlock) (vtx : List CTransaction)
    (hlen : pdb.txnAvailable.length = vtx.length) :
    fillBlock hash256 verify chainparams pdb (missingTxs pdb.txnAvailable vtx) =
      readStatusOf (checkBlock hash256 verify chainparams
        ⟨pdb.header, List.zipWith (fun o tx => o.getD tx) pdb.txnAvailable vtx, pdb.vchBlockSig,
          false⟩ true true true) := by
  have hfill := fillSlots_missingTxs pdb.txnAvailable vtx hlen []
  rw [List.append_nil] at hfill
  simp only [fillBlock, hfill]
  rfl

/-- **Compact-block reconstruction.**  When `InitData` accepts the announcement of a
block `b` and `FillBlock` is given the transactions of `b` at the free slots in order,
`FillBlock` returns what `CheckBlock` makes of a block with `b`'s header (`nFlags`
included) and signature that holds at each slot `b`'s transaction or a pool transaction
with the same short ID.  When no other pool transaction has the short ID of a
transaction of `b` and the unmarked copy of `b` passes `CheckBlock`, `FillBlock` returns
`READ_STATUS_OK` with `b`. -/
theorem fillBlock_initData_ofBlock (bucket : UInt64 → Nat)
    (vTxHashes extraTxn : List (Uint256 × CTransaction)) {b : CBlock} (hvtx : b.vtx ≠ [])
    (hsize : b.vtx.length ≤ 65536) {fUseWTXID : Bool} {nonce : UInt64}
    {pdb : PartiallyDownloadedBlock}
    (hinit : initData hash256 bucket vTxHashes
      (CBlockHeaderAndShortTxIDs.ofBlock hash256 b fUseWTXID nonce) extraTxn = some (.ok pdb)) :
    ∃ vtx : List CTransaction,
      fillBlock hash256 verify chainparams pdb (missingTxs pdb.txnAvailable b.vtx) =
        readStatusOf (checkBlock hash256 verify chainparams ⟨b.header, vtx, b.vchBlockSig, false⟩
          true true true) ∧
      vtx.length = b.vtx.length ∧
      (∀ j (hj : j < b.vtx.length), vtx[j]? = some b.vtx[j] ∨
        ∃ entry ∈ vTxHashes ++ extraTxn, vtx[j]? = some entry.2 ∧ 0 < j ∧
          (CBlockHeaderAndShortTxIDs.ofBlock hash256 b fUseWTXID nonce).getShortID entry.1 =
            (CBlockHeaderAndShortTxIDs.ofBlock hash256 b fUseWTXID nonce).getShortID
              (shortIdHash hash256 fUseWTXID b.vtx[j])) ∧
      ((∀ entry ∈ vTxHashes ++ extraTxn, ∀ j (hj : j < b.vtx.length), 0 < j →
          (CBlockHeaderAndShortTxIDs.ofBlock hash256 b fUseWTXID nonce).getShortID entry.1 =
            (CBlockHeaderAndShortTxIDs.ofBlock hash256 b fUseWTXID nonce).getShortID
              (shortIdHash hash256 fUseWTXID b.vtx[j]) → entry.2 = b.vtx[j]) →
        (checkBlock hash256 verify chainparams { b with fChecked := false } true true true).1 =
          .ok () →
        fillBlock hash256 verify chainparams pdb (missingTxs pdb.txnAvailable b.vtx) =
          .ok (.ok, { b with fChecked := true })) := by
  obtain ⟨tx0, rest, hv⟩ := List.exists_cons_of_ne_nil hvtx
  obtain ⟨hheader, hsig, hlen, hslot0, hslot⟩ := initData_ofBlock_slots hv hsize hinit
  set vtx := List.zipWith (fun o tx => o.getD tx) pdb.txnAvailable b.vtx with hvtxDef
  have hfill := fillBlock_missingTxs hash256 verify chainparams pdb b.vtx hlen
  rw [hheader, hsig] at hfill
  have hlenVtx : vtx.length = b.vtx.length := by simp [vtx, hlen]
  -- slot by slot: the block's transaction, or a pool transaction with its short ID
  have hat : ∀ j (hj : j < b.vtx.length), vtx[j]? = some b.vtx[j] ∨
      ∃ entry ∈ vTxHashes ++ extraTxn, vtx[j]? = some entry.2 ∧ 0 < j ∧
        (CBlockHeaderAndShortTxIDs.ofBlock hash256 b fUseWTXID nonce).getShortID entry.1 =
          (CBlockHeaderAndShortTxIDs.ofBlock hash256 b fUseWTXID nonce).getShortID
            (shortIdHash hash256 fUseWTXID b.vtx[j]) := by
    intro j hj
    have hj' : j < pdb.txnAvailable.length := hlen ▸ hj
    obtain ⟨o, ho⟩ : ∃ o, pdb.txnAvailable[j]? = some o :=
      ⟨pdb.txnAvailable[j], List.getElem?_eq_getElem hj'⟩
    have hget : vtx[j]? = some (o.getD b.vtx[j]) := by
      simp [vtx, List.getElem?_zipWith, ho, List.getElem?_eq_getElem hj]
    cases o with
    | none => exact .inl hget
    | some P =>
      cases j with
      | zero =>
        -- slot 0 is the coinbase
        have hP : P = tx0 := by simpa [hslot0] using ho.symm
        left
        simp [hget, hP, hv]
      | succ j =>
        obtain ⟨entry, hentry, rfl, tx, htx, hid⟩ := hslot j P ho
        have htx' : b.vtx[j + 1] = tx := by
          have h' : b.vtx[j + 1]? = some tx := by rw [hv]; exact htx
          rw [List.getElem?_eq_getElem hj] at h'
          exact Option.some.inj h'
        exact .inr ⟨entry, hentry, by simpa using hget, Nat.succ_pos j, htx' ▸ hid⟩
  refine ⟨vtx, hfill, hlenVtx, hat, fun hunique hcheck => ?_⟩
  -- with no other pool transaction under a short ID of `b`, the slots rebuild `b`
  have hvtxEq : vtx = b.vtx := by
    refine List.ext_getElem hlenVtx fun j hj hj' => ?_
    rcases hat j hj' with h | ⟨entry, hentry, h, hpos, hid⟩
    · simpa [List.getElem?_eq_getElem hj] using h
    · rw [List.getElem?_eq_getElem hj, hunique entry hentry j hj' hpos hid] at h
      exact Option.some.inj h
  have hblock : (⟨b.header, vtx, b.vchBlockSig, false⟩ : CBlock) = { b with fChecked := false } := by
    rw [hvtxEq]
  rw [hfill, hblock, checkBlock_of_fst_eq_ok verify rfl hcheck]
  rfl

/-- With empty pools, the announcement of a block of a coinbase and one more transaction
leaves the coinbase in slot 0 and slot 1 free, whatever the short ID and its bucket. -/
theorem initData_ofBlock_pair (bucket : UInt64 → Nat) {b : CBlock} {tx0 tx1 : CTransaction}
    (hv : b.vtx = [tx0, tx1]) (hheader : b.header.isNull = false) (htx0 : tx0.isNull = false)
    (fUseWTXID : Bool) (nonce : UInt64) :
    initData hash256 bucket [] (CBlockHeaderAndShortTxIDs.ofBlock hash256 b fUseWTXID nonce) [] =
      some (.ok ⟨[some tx0, none], 1, 0, 0, b.header, b.vchBlockSig⟩) := by
  have hshort := CBlockHeaderAndShortTxIDs.shorttxids_ofBlock hash256 b fUseWTXID nonce
  have hpre := CBlockHeaderAndShortTxIDs.prefilledtxn_ofBlock hash256 b fUseWTXID nonce
  rw [hv] at hshort hpre
  simp only [List.drop_one, List.tail_cons, List.map_cons, List.map_nil, List.headD_cons] at hshort hpre
  -- the one short ID skips the coinbase's slot
  have hskip : skipAvailable [some tx0, none] 0 65536 0 = some 1 :=
    @skipAvailable_coinbase tx0 1 0 0 (.inr ⟨rfl, rfl⟩)
  simp [initData, hshort, hpre, hheader, htx0, CBlockHeaderAndShortTxIDs.blockTxCount,
    placePrefilled, mapShortIds, ShortIdMap.insert, ShortIdMap.bucketSize,
    matchPool, maxBlockWeight, minSerializableTransactionWeight, witnessScaleFactor]
  rw [show (pure [some tx0, none] : Except ReadStatus (List (Option CTransaction))) =
    .ok [some tx0, none] from rfl]
  simp [hskip]

end

/-- A block that passes `CheckBlock` by its memo alone is not rebuilt: the announcement
of the marked `unsignableStakeBlock` is accepted by `InitData` with empty pools, and
`FillBlock` given its coinstake returns `READ_STATUS_CHECKBLOCK_FAILED`, neither
`READ_STATUS_FAILED` nor `READ_STATUS_OK`, for every nonce and every bucket function. -/
theorem fillBlock_checkedBlock_checkblockFailed (verify : List UInt8 → Uint256 → List UInt8 → Bool)
    (bucket : UInt64 → Nat) (fUseWTXID : Bool) (nonce : UInt64) :
    (checkBlock cHash256 verify mainParams { unsignableStakeBlock with fChecked := true }
        true true true).1 = .ok () ∧
      initData cHash256 bucket [] (CBlockHeaderAndShortTxIDs.ofBlock cHash256
          { unsignableStakeBlock with fChecked := true } fUseWTXID nonce) [] =
        some (.ok ⟨[some (coinbaseAt 0 1700000000), none], 1, 0, 0, unsignableStakeBlock.header,
          unsignableStakeBlock.vchBlockSig⟩) ∧
      missingTxs [some (coinbaseAt 0 1700000000), none] unsignableStakeBlock.vtx = [plainCoinStake] ∧
      fillBlock cHash256 verify mainParams
          ⟨[some (coinbaseAt 0 1700000000), none], 1, 0, 0, unsignableStakeBlock.header,
            unsignableStakeBlock.vchBlockSig⟩ [plainCoinStake] =
        .ok (.checkblockFailed, { unsignableStakeBlock with fChecked := true }) := by
  have hmarked := @checkBlock_of_fChecked cHash256 mainParams
    { unsignableStakeBlock with fChecked := true } true true true verify rfl
  have hfill := fillBlock_missingTxs cHash256 verify mainParams
    ⟨[some (coinbaseAt 0 1700000000), none], 1, 0, 0, unsignableStakeBlock.header,
      unsignableStakeBlock.vchBlockSig⟩ unsignableStakeBlock.vtx rfl
  refine ⟨congrArg Prod.fst hmarked,
    initData_ofBlock_pair cHash256 bucket rfl rfl rfl fUseWTXID nonce, rfl, ?_⟩
  -- the slots rebuild the unmarked block, which fails the signature check
  rw [show missingTxs [some (coinbaseAt 0 1700000000), none] unsignableStakeBlock.vtx =
    [plainCoinStake] from rfl] at hfill
  rw [hfill]
  exact congrArg readStatusOf (checkBlock_unsignableStakeBlock verify)

/-- The marked `unsignableStakeBlock`, announced with nonce 0 and witness IDs, with empty
pools and no signature verifying: `CheckBlock` accepts it, `FillBlock` rebuilds it and
returns `READ_STATUS_CHECKBLOCK_FAILED`. -/
theorem fillBlock_rejects_checkedBlock :
    (checkBlock cHash256 (fun _ _ _ => false) mainParams
        { unsignableStakeBlock with fChecked := true } true true true).1 = .ok () ∧
      initData cHash256 (fun _ => 0) [] (CBlockHeaderAndShortTxIDs.ofBlock cHash256
          { unsignableStakeBlock with fChecked := true } true 0) [] =
        some (.ok ⟨[some (coinbaseAt 0 1700000000), none], 1, 0, 0, unsignableStakeBlock.header,
          unsignableStakeBlock.vchBlockSig⟩) ∧
      missingTxs [some (coinbaseAt 0 1700000000), none] unsignableStakeBlock.vtx = [plainCoinStake] ∧
      fillBlock cHash256 (fun _ _ _ => false) mainParams
          ⟨[some (coinbaseAt 0 1700000000), none], 1, 0, 0, unsignableStakeBlock.header,
            unsignableStakeBlock.vchBlockSig⟩ [plainCoinStake] =
        .ok (.checkblockFailed, { unsignableStakeBlock with fChecked := true }) :=
  fillBlock_checkedBlock_checkblockFailed (fun _ _ _ => false) (fun _ => 0) true 0

/-- A mined block of two transactions is rebuilt from its announcement with empty pools
and its second transaction. -/
theorem fillBlock_initData_lateSpendBlock :
    lateSpendBlock.vtx ≠ [] ∧ lateSpendBlock.vtx.length ≤ 65536 ∧
      initData cHash256 (fun _ => 0) [] (CBlockHeaderAndShortTxIDs.ofBlock cHash256 lateSpendBlock true 0)
          [] = some (.ok ⟨[some (coinbaseAt 0 1700000000), none], 1, 0, 0, lateSpendBlock.header, []⟩) ∧
      fillBlock cHash256 (fun _ _ _ => false) mainParams
          ⟨[some (coinbaseAt 0 1700000000), none], 1, 0, 0, lateSpendBlock.header, []⟩ [lateSpend] =
        .ok (.ok, { lateSpendBlock with fChecked := true }) := by
  have hvtx : lateSpendBlock.vtx ≠ [] := List.cons_ne_nil _ _
  have hinit := @initData_ofBlock_pair cHash256 (fun _ => 0) lateSpendBlock _ _ rfl rfl rfl true 0
  have hsize : lateSpendBlock.vtx.length ≤ 65536 := by decide
  obtain ⟨-, -, -, -, hok⟩ := fillBlock_initData_ofBlock cHash256 (fun _ _ _ => false) mainParams
    (fun _ => 0) [] [] hvtx hsize hinit
  exact ⟨hvtx, hsize, hinit,
    hok (fun _ h => absurd h List.not_mem_nil) (congrArg Prod.fst checkBlock_lateSpendBlock)⟩

end Sumcoin
