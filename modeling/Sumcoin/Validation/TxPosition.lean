import Sumcoin.Validation.DisconnectBlock
import Sumcoin.Primitives.Unserialize

/-!
# Where a transaction lies in a block file: `CDiskTxPos` (`txdb.h`, `validation.cpp`, `kernel.cpp`)

`WriteBlockToDisk` writes a block with a `SER_DISK`, `CLIENT_VERSION` stream and records
the position of its first byte.  `ConnectBlock` records for each transaction a
`CDiskTxPos`: that position and an offset `nTxOffset` counted from the end of the header,
starting after the count of `vtx` and adding each transaction's
`GetSerializeSize(tx, SER_DISK, CLIENT_VERSION)`.  The readers (`CheckProofOfStake`,
`TxIndex::FindTx`) open the file at the block, read a `CBlockHeader`, skip `nTxOffset`
bytes and read a transaction; the kernel hashes `nTxOffset + NORMAL_SERIALIZE_SIZE` as the
transaction's offset in its block.

All of this rests on the header on disk being 80 bytes: `nFlags` is written only with
`SER_POSMARKER`, which `SER_DISK` lacks (`length_header_serDisk`).  Then, for a block that
passes `CheckBlock`, every recorded position reads back a transaction with the recorded
txid, and the kernel's offset is the transaction's (`readTxAtPos_connectBlockTxPositions`).
The transaction read back may differ from the one in memory in `nTime` from version 3 on,
which is not serialized; its txid does not.

## Main definitions

* `serDisk`, `clientVersion`, `normalSerializeSize`, `getSizeOfCompactSize`.
* `Unser.header`, `connectBlockTxPositions`, `readTxAtPos`.
-/

namespace Sumcoin

open ByteReader

/-- `SER_DISK`. -/
def serDisk : Nat := 2

/-- `CLIENT_VERSION`: version 0.20.2.0. -/
def clientVersion : Nat := 200200

/-- `CBlockHeader::NORMAL_SERIALIZE_SIZE`. -/
def normalSerializeSize : Nat := 80

/-- `GetSizeOfCompactSize(nSize)`. -/
def getSizeOfCompactSize (nSize : Nat) : Nat :=
  if nSize < 253 then 1
  else if nSize ≤ 0xffff then 3
  else if nSize ≤ 0xffffffff then 5
  else 9

/-- The size computer agrees with the writer. -/
theorem getSizeOfCompactSize_eq (nSize : Nat) :
    getSizeOfCompactSize nSize = (Ser.compactSize nSize).length := by
  unfold getSizeOfCompactSize Ser.compactSize
  split_ifs <;> simp

/-- The header a `SER_DISK` stream writes is `NORMAL_SERIALIZE_SIZE` bytes long. -/
theorem length_header_serDisk (h : CBlockHeader) :
    (Ser.header serDisk h).length = normalSerializeSize := by
  simp [Ser.header, serDisk, Ser.serGetHash, Ser.serPosMarker, Ser.uint256, normalSerializeSize]

/-! ## Reading a header -/

namespace Unser

/-- `CBlockHeader::Unserialize`: `nFlags` only with `SER_POSMARKER` and without
`SER_GETHASH`, else as `SetNull` left it. -/
def header (nType : Nat) : Reader CBlockHeader := do
  let nVersion ← int32
  let hashPrevBlock ← uint256
  let hashMerkleRoot ← uint256
  let nTime ← uint32
  let nBits ← uint32
  let nNonce ← uint32
  let nFlags ← if nType &&& Ser.serGetHash == 0 && nType &&& Ser.serPosMarker != 0 then uint32
    else pure 0
  pure ⟨nVersion, hashPrevBlock, hashMerkleRoot, nTime, nBits, nNonce, nFlags⟩

/-- A `SER_DISK` stream reads a header back from its 80 bytes, without `nFlags`. -/
theorem header_serDisk (h : CBlockHeader) (rest : List UInt8) :
    header serDisk (Ser.header serDisk h ++ rest) = .ok ({ h with nFlags := 0 }, rest) := by
  have hflags : (serDisk &&& Ser.serGetHash == 0 && serDisk &&& Ser.serPosMarker != 0) = false := by
    decide
  simp only [Ser.header, hflags, Bool.false_eq_true, if_false, List.append_nil,
    List.append_assoc]
  rw [header, bind_of_ok (readsBack_int32 _ _ trivial), bind_of_ok (readsBack_uint256 _ _ trivial),
    bind_of_ok (readsBack_uint256 _ _ trivial), bind_of_ok (readsBack_uint32 _ _ trivial),
    bind_of_ok (readsBack_uint32 _ _ trivial), bind_of_ok (readsBack_uint32 _ _ trivial),
    if_neg (by simp [hflags]), bind_of_ok (pure_apply _ _)]
  rfl

end Unser

/-! ## Positions -/

section

variable (hash256 : List UInt8 → Uint256)

/-- The loop of `ConnectBlock` over `vtx` from offset `nTxOffset`: each transaction's txid
and offset, then the offset moved past it. -/
def txPositionsFrom : Nat → List CTransaction → List (Uint256 × Nat)
  | _, [] => []
  | nTxOffset, tx :: vtx =>
    (tx.getHash hash256, nTxOffset) ::
      txPositionsFrom (nTxOffset + getSerializeSizeTx tx serDisk clientVersion) vtx

/-- The `vPos` of `ConnectBlock`: the `nTxOffset` of each transaction, from
`GetSizeOfCompactSize(block.vtx.size())` on.  The block's position, the same in every
entry, is left out. -/
def connectBlockTxPositions (vtx : List CTransaction) : List (Uint256 × Nat) :=
  txPositionsFrom hash256 (getSizeOfCompactSize vtx.length) vtx

/-- What `CheckProofOfStake` and `TxIndex::FindTx` read at a `CDiskTxPos`, with `file` the
block file from the block's position on: a header, `nTxOffset` bytes skipped, and a
transaction.  Skipping past the end leaves nothing to read. -/
def readTxAtPos (file : List UInt8) (nTxOffset : Nat) :
    Except String (CBlockHeader × CTransaction) := do
  let (header, rest) ← Unser.header serDisk file
  let (tx, _) ← Unser.unserializeTransaction (Ser.allowWitness clientVersion) (rest.drop nTxOffset)
  pure (header, tx)

/-- The entry of transaction `i`: its offset is the count's size and the sizes of the
transactions before it. -/
theorem getElem?_txPositionsFrom :
    ∀ (nTxOffset : Nat) (vtx : List CTransaction) (i : Nat),
      (txPositionsFrom hash256 nTxOffset vtx)[i]? = vtx[i]?.map fun tx =>
        (tx.getHash hash256,
          nTxOffset + ((vtx.take i).map fun tx => getSerializeSizeTx tx serDisk clientVersion).sum)
  | _, [], _ => rfl
  | nTxOffset, tx :: vtx, 0 => by simp [txPositionsFrom]
  | nTxOffset, tx :: vtx, i + 1 => by
    rw [txPositionsFrom, List.getElem?_cons_succ, getElem?_txPositionsFrom, List.getElem?_cons_succ,
      List.take_succ_cons, List.map_cons, List.sum_cons, Nat.add_assoc]

end

/-! ## The bytes at a position -/

/-- Skipping the elements before `xs[i]` in the bytes of `xs` lands on the bytes of `xs[i]`. -/
theorem drop_flatMap_take {α : Type} (f : α → List UInt8) (suffix : List UInt8) :
    ∀ (xs : List α) (i : Nat) (hi : i < xs.length),
      (xs.flatMap f ++ suffix).drop ((xs.take i).map fun x => (f x).length).sum =
        f xs[i] ++ ((xs.drop (i + 1)).flatMap f ++ suffix)
  | [], _, hi => absurd hi (Nat.not_lt_zero _)
  | x :: xs, 0, _ => by simp
  | x :: xs, i + 1, hi => by
    have hi' : i < xs.length := by simpa using hi
    rw [List.take_succ_cons, List.map_cons, List.sum_cons, List.flatMap_cons, List.append_assoc,
      List.drop_length_add_append, drop_flatMap_take f suffix xs i hi']
    rfl

/-- The length of every vector of a transaction, and of every script in it, is at most
the length of its serialization. -/
theorem transactionFits_of_length {tx : CTransaction}
    (hlen : (Ser.transaction true tx).length ≤ Unser.maxSize)
    (hvalue : ∀ txout ∈ tx.vout, moneyRange txout.nValue = true) : Unser.transactionFits tx := by
  -- the inputs, the outputs and the witnesses are pieces of the serialization
  have hin : (tx.vin.flatMap Ser.txIn).length ≤ (Ser.transaction true tx).length := by
    simp only [Ser.transaction, Ser.vector, List.length_append]
    omega
  have hout : (tx.vout.flatMap Ser.txOut).length ≤ (Ser.transaction true tx).length := by
    simp only [Ser.transaction, Ser.vector, List.length_append]
    omega
  have hvin : tx.vin.length ≤ (tx.vin.flatMap Ser.txIn).length := by
    have := @mul_length_le_length_flatMap _ Ser.txIn 1 (fun txin => by
      simp [Ser.txIn, Ser.outPoint, Ser.uint256]
      omega) tx.vin
    omega
  have hvout : tx.vout.length ≤ (tx.vout.flatMap Ser.txOut).length := by
    have := mul_length_le_length_flatMap le_length_txOut tx.vout
    omega
  have hwit : ∀ txin ∈ tx.vin, Unser.WitnessFits txin.scriptWitness := by
    intro txin htxin
    by_cases hw : tx.hasWitness
    · have hwl : (tx.vin.flatMap fun txin => Ser.witness txin.scriptWitness).length ≤
          (Ser.transaction true tx).length := by
        rw [Unser.transaction_of_hasWitness tx hw]
        simp only [List.length_append, List.length_cons]
        omega
      have h₁ := @length_le_length_flatMap _ (fun txin => Ser.witness txin.scriptWitness) _ _ htxin
      have hstack : txin.scriptWitness.stack.length ≤ (Ser.witness txin.scriptWitness).length := by
        have := @mul_length_le_length_flatMap _ Ser.bytes 1 (fun item => by
          have := length_compactSize_pos item.length
          simp only [Ser.bytes, List.length_append]
          omega) txin.scriptWitness.stack
        simp only [Ser.witness, Ser.vector, List.length_append]
        omega
      refine ⟨by omega, fun item hitem => ?_⟩
      have h₂ := @length_le_length_flatMap _ Ser.bytes _ _ hitem
      have : (txin.scriptWitness.stack.flatMap Ser.bytes).length ≤
          (Ser.witness txin.scriptWitness).length := by
        simp only [Ser.witness, Ser.vector, List.length_append]
        omega
      simp only [Ser.bytes, List.length_append] at h₂
      omega
    · -- without a witness every stack is empty
      have hnull : txin.scriptWitness.isNull = true := by
        simp only [CTransaction.hasWitness, List.any_eq_true, Bool.not_eq_true', not_exists,
          not_and, Bool.not_eq_false] at hw
        simpa using hw txin htxin
      have hempty : txin.scriptWitness.stack = [] := by
        simpa [CScriptWitness.isNull] using hnull
      exact ⟨by simp [hempty, Unser.maxSize], by simp [hempty]⟩
  refine ⟨⟨by omega, fun txin htxin => ⟨?_, hwit txin htxin⟩⟩, ⟨by omega, fun txout htxout => ?_⟩⟩
  · have h₁ := @length_le_length_flatMap _ Ser.txIn _ _ htxin
    simp only [Ser.txIn, Ser.bytes, List.length_append] at h₁
    omega
  · have h₁ := @length_le_length_flatMap _ Ser.txOut _ _ htxout
    have hm := (moneyRange_iff _).mp (hvalue txout htxout)
    refine ⟨⟨le_trans (by decide) hm.1, lt_of_le_of_lt hm.2 (by decide)⟩, ?_⟩
    · simp only [Ser.txOut, Ser.bytes, List.length_append] at h₁
      omega

/-- The bytes of `vtx` and what follows them, from the offset `ConnectBlock` gives
transaction `i`: that transaction's bytes, then the rest. -/
theorem drop_vector_txOffset (vtx : List CTransaction) (suffix : List UInt8) {i : Nat}
    (hi : i < vtx.length) :
    (Ser.vector (Ser.transaction (Ser.allowWitness clientVersion)) vtx ++ suffix).drop
        (getSizeOfCompactSize vtx.length +
          ((vtx.take i).map fun tx => getSerializeSizeTx tx serDisk clientVersion).sum) =
      Ser.transaction (Ser.allowWitness clientVersion) vtx[i] ++
        ((vtx.drop (i + 1)).flatMap (Ser.transaction (Ser.allowWitness clientVersion)) ++ suffix) := by
  rw [Ser.vector, getSizeOfCompactSize_eq, List.append_assoc, List.drop_length_add_append]
  exact drop_flatMap_take _ suffix vtx i hi

section

variable (hash256 : List UInt8 → Uint256)

/-- A transaction with an input that fits `ReadCompactSize` is read back from its bytes
with its txid: itself before version 3, and with `nTime` cleared from version 3 on. -/
theorem unserializeTransaction_getHash {tx : CTransaction} (hvin : tx.vin ≠ [])
    (hfits : Unser.transactionFits tx) (rest : List UInt8) :
    ∃ tx', Unser.unserializeTransaction true (Ser.transaction true tx ++ rest) = .ok (tx', rest) ∧
      tx'.getHash hash256 = tx.getHash hash256 := by
  by_cases hv : tx.nVersion < 3
  · have htime : 3 ≤ tx.nVersion → tx.nTime = 0 := fun h3 => absurd hv (Int32.not_lt.mpr h3)
    exact ⟨tx, Unser.unserializeTransaction_transaction true hvin htime hfits rest, rfl⟩
  · -- from version 3 on `nTime` is not written, and the reader leaves it 0
    have hfits₀ : Unser.transactionFits { tx with nTime := 0 } := hfits
    refine ⟨{ tx with nTime := 0 }, ?_, CTransaction.getHash_setTime hash256 0 hv⟩
    rw [← Ser.transaction_setTime true tx 0 hv]
    exact @Unser.unserializeTransaction_transaction true { tx with nTime := 0 } hvin (fun _ => rfl)
      hfits₀ rest

/-- Within `CheckBlock`'s size limit every transaction of a passing block fits the limits
of `ReadCompactSize`, and it has an input. -/
theorem checkBlockContents_transactionFits {chainparams : ChainParams} {b : CBlock}
    {fCheckPOW fCheckMerkleRoot : Bool}
    (hcheck : checkBlockContents hash256 chainparams b fCheckPOW fCheckMerkleRoot = .ok ())
    {tx : CTransaction} (hmem : tx ∈ b.vtx) : tx.vin ≠ [] ∧ Unser.transactionFits tx := by
  obtain ⟨-, -, -, -, -, hsize⟩ := checkBlockContents_shape hcheck
  obtain ⟨hvin, hvalue⟩ := checkTransaction_eq_ok (checkBlockContents_checkTransactions hcheck tx hmem)
  refine ⟨hvin, transactionFits_of_length ?_ hvalue⟩
  -- the block's size without witnesses bounds the transaction's with them
  have hw : Ser.allowWitness 0 = true := by decide
  have hlen := length_transaction_le_block hmem (protocolVersion ||| Ser.serializeTransactionNoWitness) 0
  rw [hw] at hlen
  simp only [getSerializeSizeBlock, witnessScaleFactor, maxBlockWeight] at hsize
  simp only [Unser.maxSize]
  omega

/-- **Positions locate their transactions.**  For a block that passes `CheckBlock`,
written with `SER_DISK` and `CLIENT_VERSION`, the entry `ConnectBlock` records for
transaction `i` carries its txid; reading a header, skipping the entry's offset and reading
a transaction gives a transaction with that txid, whatever follows the block in the file;
and the kernel's offset `nTxOffset + NORMAL_SERIALIZE_SIZE` is where the transaction's
bytes start in the block. -/
theorem readTxAtPos_connectBlockTxPositions {chainparams : ChainParams} {b : CBlock}
    {fCheckPOW fCheckMerkleRoot : Bool}
    (hcheck : checkBlockContents hash256 chainparams b fCheckPOW fCheckMerkleRoot = .ok ())
    {i : Nat} {txid : Uint256} {nTxOffset : Nat}
    (hpos : (connectBlockTxPositions hash256 b.vtx)[i]? = some (txid, nTxOffset))
    (after : List UInt8) :
    ∃ tx, b.vtx[i]? = some tx ∧ txid = tx.getHash hash256 ∧
      (∃ tx', readTxAtPos (Ser.block serDisk clientVersion b ++ after) nTxOffset =
          .ok ({ b.header with nFlags := 0 }, tx') ∧ tx'.getHash hash256 = txid) ∧
      ∃ rest, (Ser.block serDisk clientVersion b).drop (nTxOffset + normalSerializeSize) =
        Ser.transaction (Ser.allowWitness clientVersion) tx ++ rest := by
  rw [connectBlockTxPositions, getElem?_txPositionsFrom, Option.map_eq_some_iff] at hpos
  obtain ⟨tx, htx, hentry⟩ := hpos
  obtain ⟨rfl, rfl⟩ := Prod.mk.inj hentry
  obtain ⟨hi, rfl⟩ := List.getElem?_eq_some_iff.mp htx
  obtain ⟨hvin, hfits⟩ := checkBlockContents_transactionFits hash256 hcheck (List.getElem_mem hi)
  have hwit : Ser.allowWitness clientVersion = true := by decide
  -- after the header, in the file and in the block alone, the offset lands on the transaction
  have hfile := drop_vector_txOffset b.vtx (Ser.bytes b.vchBlockSig ++ after) hi
  have hblock := drop_vector_txOffset b.vtx (Ser.bytes b.vchBlockSig) hi
  rw [hwit] at hfile hblock
  obtain ⟨tx', hread, hhash⟩ := unserializeTransaction_getHash hash256 hvin hfits
    ((b.vtx.drop (i + 1)).flatMap (Ser.transaction true) ++ (Ser.bytes b.vchBlockSig ++ after))
  refine ⟨b.vtx[i], htx, rfl, ⟨tx', ?_, hhash⟩,
    (b.vtx.drop (i + 1)).flatMap (Ser.transaction true) ++ Ser.bytes b.vchBlockSig, ?_⟩
  · rw [readTxAtPos, Ser.block, hwit, List.append_assoc, List.append_assoc]
    refine Except.bind_eq_ok.mpr ⟨_, Unser.header_serDisk b.header _, ?_⟩
    refine Except.bind_eq_ok.mpr ⟨_, by rw [hfile]; exact hread, rfl⟩
  · rw [Ser.block, hwit, List.append_assoc, ← length_header_serDisk b.header, Nat.add_comm,
      List.drop_length_add_append, hblock]

end

/-- The spending transaction of `spendBlock` lies 68 bytes after the header: one byte of
count, then the 67 bytes of the coinbase. -/
theorem connectBlockTxPositions_spendBlock :
    (connectBlockTxPositions cHash256 spendBlock.vtx)[1]? = some (spendTx.getHash cHash256, 68) :=
  rfl

theorem readTxAtPos_spendBlock :
    checkBlockContents cHash256 mainParams spendBlock false false = .ok () ∧
      (connectBlockTxPositions cHash256 spendBlock.vtx)[1]? = some (spendTx.getHash cHash256, 68) ∧
      ∃ tx, spendBlock.vtx[1]? = some tx ∧ spendTx.getHash cHash256 = tx.getHash cHash256 ∧
        (∃ tx', readTxAtPos (Ser.block serDisk clientVersion spendBlock ++ []) 68 =
            .ok ({ spendBlock.header with nFlags := 0 }, tx') ∧
          tx'.getHash cHash256 = spendTx.getHash cHash256) ∧
        ∃ rest, (Ser.block serDisk clientVersion spendBlock).drop (68 + normalSerializeSize) =
          Ser.transaction (Ser.allowWitness clientVersion) tx ++ rest :=
  ⟨checkBlockContents_spendBlock, connectBlockTxPositions_spendBlock,
    readTxAtPos_connectBlockTxPositions cHash256 checkBlockContents_spendBlock
      connectBlockTxPositions_spendBlock []⟩

end Sumcoin