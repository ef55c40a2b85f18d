import Sumcoin.Consensus.Kernel
import Sumcoin.Validation.AcceptHeader

/-!
# Checks of a block against its predecessor: `ContextualCheckBlock` and
`SumcoinContextualBlockChecks` (`validation.cpp`)

`ContextualCheckBlock` needs the predecessor's height and time: every transaction must
be final, from v0.6 the coinbase must start with the height, a witness commitment must
match, and the weight must fit.  `SumcoinContextualBlockChecks` needs the whole index:
it checks the kernel of a proof-of-stake body, computes the block's entropy bit and
next stake modifier and the checksum over them, compares the checksum with the
hard checkpoints, and, unless it only checks, writes all of this into the entry.

Both read the block type from the body (`CBlock::IsProofOfStake`, the coinstake in the
second position), never from the entry's flags.

`GetSerializeSize(block, PROTOCOL_VERSION | SERIALIZE_TRANSACTION_NO_WITNESS)` passes its
flags as the serialization type, with version 0, so the sizes `GetBlockWeight` adds both
count the witnesses.

## Main definitions

* `isFinalTx`, `getWitnessCommitmentIndex`, `getBlockWeight`, `contextualCheckBlock`.
* `sumcoinContextualBlockChecks`: the result and the entry the call leaves.
* `sumcoinContextualBlockChecksInPlace`: the same with the writes to the entry done in
  place, the tentative ones (`tentativeStakeModifierChecksum`) undone from backups.

## Main statements

* `sumcoinContextualBlockChecksInPlace_eq`: the in-place model refines the pure one.
* `sumcoinContextualBlockChecksInPlace_untouched_unless_committed`: a failed or checking
  call leaves the entry as it was; a commit stores the checksum of the committed entry
  when the body is proof-of-stake or the entry held the zero proof hash.
-/

namespace Sumcoin

/-- `LOCKTIME_THRESHOLD`. -/
def locktimeThreshold : Nat := 500000000

/-- `CTxIn::SEQUENCE_FINAL`. -/
def sequenceFinal : UInt32 := 0xffffffff

/-- `IsFinalTx(tx, nBlockHeight, nBlockTime)`. -/
def isFinalTx (tx : CTransaction) (nBlockHeight : Int) (nBlockTime : Int) : Bool :=
  tx.nLockTime == 0 ||
    decide ((tx.nLockTime.toNat : Int) <
      if tx.nLockTime.toNat < locktimeThreshold then nBlockHeight else nBlockTime) ||
    tx.vin.all fun txin => txin.nSequence == sequenceFinal

/-- The commitment header `OP_RETURN 0x24 0xaa 0x21 0xa9 0xed`. -/
def witnessCommitmentHeader : List UInt8 := [Script.opReturn, 0x24, 0xaa, 0x21, 0xa9, 0xed]

/-- `GetWitnessCommitmentIndex(block)`: the last coinbase output that carries a witness
commitment. -/
def getWitnessCommitmentIndex (block : CBlock) : Option Nat :=
  match block.vtx with
  | [] => none
  | tx0 :: _ =>
    tx0.vout.zipIdx.foldl (fun commitpos (txout, o) =>
      if txout.scriptPubKey.length ≥ 38 ∧ witnessCommitmentHeader <+: txout.scriptPubKey then
        some o
      else commitpos) none

/-- `GetBlockWeight(block)`: three times the size without witnesses plus the size with
them, both sizes taken at serialization version 0. -/
def getBlockWeight (block : CBlock) : Nat :=
  getSerializeSizeBlock block (protocolVersion ||| Ser.serializeTransactionNoWitness) 0 *
      (witnessScaleFactor - 1) +
    getSerializeSizeBlock block protocolVersion 0

/-- `strprintf("%0*x", width, n)`. -/
def formatHex (width n : Nat) : String :=
  String.ofList ((List.range width).reverse.map fun i => Uint256.hexDigit (n / 16 ^ i % 16))

section

variable (hash256 : List UInt8 → Uint256) (chainparams : ChainParams)

/-- `ContextualCheckBlock(block, state, pindexPrev)`. -/
def contextualCheckBlock (block : CBlock) (pindexPrev : List CBlockIndex) :
    Except BlockFailure Unit := do
  let net := chainparams.network
  let nHeight : Nat := match pindexPrev with
    | [] => 0
    | prev :: _ => prev.nHeight + 1
  -- BIP113 and the witness rules start with the BTC16 switch of the predecessor
  let fBTC16 := match pindexPrev with
    | [] => false
    | prev :: _ => isBTC16BIPsEnabled net prev.nTime
  let nLockTimeCutoff : Int := if fBTC16 then getMedianTimePast pindexPrev else block.getBlockTime
  if !block.vtx.all fun tx => isFinalTx tx nHeight nLockTimeCutoff then
    throw (.invalid .blockConsensus "bad-txns-nonfinal" "non-final transaction")
  let coinbase := block.vtx.headD ⟨[], [], 0, 0, 0⟩
  let cbIn := coinbase.vin.headD ⟨COutPoint.null, [], 0, ⟨[]⟩⟩
  -- Enforce rule that the coinbase starts with serialized block height
  if pindexPrev ≠ [] ∧ isProtocolV06 net pindexPrev ∧ block.header.nVersion ≥ 2 then
    let expect := Script.pushInt64 nHeight
    if cbIn.scriptSig.length < expect.length || !(expect <+: cbIn.scriptSig) then
      throw (.invalid .blockConsensus "bad-cb-height" "block height mismatch in coinbase")
  let fHaveWitness ← if fBTC16 then
      match getWitnessCommitmentIndex block with
      | none => pure false
      | some commitpos => do
        let hashWitness := (blockWitnessMerkleRoot hash256 block.vtx).1
        let stack := cbIn.scriptWitness.stack
        if stack.length ≠ 1 || (stack.headD []).length ≠ 32 then
          throw (.invalid .blockMutated "bad-witness-nonce-size"
            "ContextualCheckBlock : invalid witness reserved value size")
        let hashWitness := hash256 (Ser.uint256 hashWitness ++ stack.headD [])
        let commitment := (coinbase.vout.getD commitpos ⟨-1, []⟩).scriptPubKey
        if Ser.uint256 hashWitness ≠ (commitment.drop 6).take 32 then
          throw (.invalid .blockMutated "bad-witness-merkle-match"
            "ContextualCheckBlock : witness merkle commitment mismatch")
        pure true
    else pure false
  -- No witness data is allowed in blocks that don't commit to witness data
  if !fHaveWitness && block.vtx.any (·.hasWitness) then
    throw (.invalid .blockMutated "unexpected-witness"
      "ContextualCheckBlock : unexpected witness data found")
  if getBlockWeight block > maxBlockWeight then
    throw (.invalid .blockConsensus "bad-blk-weight" "ContextualCheckBlock : weight limit failed")

variable (verifyScript : ScriptVerifier) (m : BlockMap) (chain : CChain)
  (txIndex : Option DiskTxIndex) (draw : Nat → Nat)
  (sort : List (Int × Uint256) → List (Int × Uint256))

/-- The fields the checks write into an entry: for a proof-of-stake body the staked
outpoint, its time and the proof hash, then the entropy bit, the modifier and the
checksum; `none` when the entropy bit is not a bit. -/
def writeStakeFields (block : CBlock) (pindex : CBlockIndex) (hashProofOfStake : Uint256)
    (nEntropyBit : UInt32) (nStakeModifier : UInt64) (fGeneratedStakeModifier : Bool)
    (nStakeModifierChecksum : UInt32) : Option CBlockIndex := do
  let coinstake := (block.vtx.drop 1).headD ⟨[], [], 0, 0, 0⟩
  let pindex := if block.isProofOfStake then
      { pindex with
        prevoutStake := (coinstake.vin.headD ⟨COutPoint.null, [], 0, ⟨[]⟩⟩).prevout
        nStakeTime := coinstake.nTime
        hashProofOfStake := hashProofOfStake }
    else pindex
  let pindex ← pindex.setStakeEntropyBit nEntropyBit
  pure { pindex.setStakeModifier nStakeModifier fGeneratedStakeModifier with
    nStakeModifierChecksum := nStakeModifierChecksum }

/-- `SumcoinContextualBlockChecks(block, state, pindex, fJustCheck)` on the entry
`pindex` with predecessors `pindexPrev`: the entry as the call leaves it, unchanged when
it only checks, or how the call fails. -/
def sumcoinContextualBlockChecks (block : CBlock) (pindex : CBlockIndex)
    (pindexPrev : List CBlockIndex) (fJustCheck : Bool) : Except BlockFailure CBlockIndex := do
  let net := chainparams.network
  -- verify hash target and signature of coinstake tx
  let hashProofOfStake ← if block.isProofOfStake then
      let coinstake := (block.vtx.drop 1).headD ⟨[], [], 0, 0, 0⟩
      checkProofOfStake hash256 chainparams m chain verifyScript txIndex pindexPrev coinstake
        block.header.nBits (if coinstake.nTime ≠ 0 then coinstake.nTime else block.header.nTime)
    else pure Uint256.zero
  let nEntropyBit := getStakeEntropyBit hash256 net block
  match computeNextStakeModifier hash256 m chainparams draw sort (pindex :: pindexPrev) with
  | none => throw (.error "ConnectBlock() : ComputeNextStakeModifier() failed")
  | some (nStakeModifier, fGeneratedStakeModifier) =>
    -- the checksum is taken over the entry as the writes would leave it
    let pindexSet := (pindex.setStakeEntropyBit nEntropyBit).map fun p =>
      { p.setStakeModifier nStakeModifier fGeneratedStakeModifier with
        hashProofOfStake := hashProofOfStake }
    match pindexSet with
    | none => throw (.error "ConnectBlock() : SetStakeEntropyBit() failed")
    | some pindexSet =>
      match getStakeModifierChecksum hash256 chainparams.consensus.hashGenesisBlock pindexSet
          pindexPrev with
      | .error what => throw (.thrown what)
      | .ok nStakeModifierChecksum =>
        if !checkStakeModifierCheckpoints net pindex.nHeight nStakeModifierChecksum then
          throw (.error ("ConnectBlock() : Rejected by stake modifier checkpoint height=" ++
            toString pindex.nHeight ++ ", modifier=0x" ++ formatHex 16 nStakeModifier.toNat))
        if fJustCheck then pure pindex
        else
          match writeStakeFields block pindex hashProofOfStake nEntropyBit nStakeModifier
              fGeneratedStakeModifier nStakeModifierChecksum with
          | none => throw (.error "ConnectBlock() : SetStakeEntropyBit() failed")
          | some pindex => pure pindex

/-! ## The entry in place

The source computes the checksum by writing the entropy bit, the modifier and the proof
hash into the entry, hashing it, and restoring the three fields from backups; only then
may it fail at the checkpoint, return for `fJustCheck`, or commit.  The model below runs
these writes on the entry as the source does, and returns the entry the call leaves with
the result. -/

/-- The lines from "compute nStakeModifierChecksum begin" to "end": write the entropy bit,
the modifier and the proof hash, hash the entry, and undo the writes from the backups.
`none` when `SetStakeEntropyBit` fails, which it does before it writes; the failed
assertion of `GetStakeModifierChecksum`, which ends the process before the undo. -/
def tentativeStakeModifierChecksum (hashGenesisBlock : Uint256) (pindex : CBlockIndex)
    (pindexPrev : List CBlockIndex) (nEntropyBit : UInt32) (nStakeModifier : UInt64)
    (fGeneratedStakeModifier : Bool) (hashProofOfStake : Uint256) :
    Option (Except String (UInt32 × CBlockIndex)) := do
  let nFlagsBackup := pindex.nFlags
  let nStakeModifierBackup := pindex.nStakeModifier
  let hashProofOfStakeBackup := pindex.hashProofOfStake
  -- set necessary pindex fields
  let pindex ← pindex.setStakeEntropyBit nEntropyBit
  let pindex := { pindex.setStakeModifier nStakeModifier fGeneratedStakeModifier with
    hashProofOfStake := hashProofOfStake }
  pure <| (getStakeModifierChecksum hash256 hashGenesisBlock pindex pindexPrev).map
    fun nStakeModifierChecksum =>
      -- undo pindex fields
      (nStakeModifierChecksum, { pindex with
        nFlags := nFlagsBackup
        nStakeModifier := nStakeModifierBackup
        hashProofOfStake := hashProofOfStakeBackup })

/-- The lines after "write everything to index", on the entry in place: the result, and the
entry as they leave it, with the staked outpoint already written when the entropy bit
fails. -/
def commitStakeFields (block : CBlock) (pindex : CBlockIndex) (hashProofOfStake : Uint256)
    (nEntropyBit : UInt32) (nStakeModifier : UInt64) (fGeneratedStakeModifier : Bool)
    (nStakeModifierChecksum : UInt32) : Except BlockFailure Unit × CBlockIndex :=
  let coinstake := (block.vtx.drop 1).headD ⟨[], [], 0, 0, 0⟩
  let pindex := if block.isProofOfStake then
      { pindex with
        prevoutStake := (coinstake.vin.headD ⟨COutPoint.null, [], 0, ⟨[]⟩⟩).prevout
        nStakeTime := coinstake.nTime
        hashProofOfStake := hashProofOfStake }
    else pindex
  match pindex.setStakeEntropyBit nEntropyBit with
  | none => (.error (.error "ConnectBlock() : SetStakeEntropyBit() failed"), pindex)
  | some pindex =>
    (.ok (), { pindex.setStakeModifier nStakeModifier fGeneratedStakeModifier with
      nStakeModifierChecksum := nStakeModifierChecksum })

/-- `SumcoinContextualBlockChecks(block, state, pindex, fJustCheck)` with its writes to
`*pindex` in place: the result, and the entry as the call leaves it.  A failed assertion
ends the process, so nothing reads the entry after it; the model gives back the entry the
call was given. -/
def sumcoinContextualBlockChecksInPlace (block : CBlock) (pindex : CBlockIndex)
    (pindexPrev : List CBlockIndex) (fJustCheck : Bool) : Except BlockFailure Unit × CBlockIndex :=
  let net := chainparams.network
  let coinstake := (block.vtx.drop 1).headD ⟨[], [], 0, 0, 0⟩
  -- verify hash target and signature of coinstake tx
  let kernel := if block.isProofOfStake then
      checkProofOfStake hash256 chainparams m chain verifyScript txIndex pindexPrev coinstake
        block.header.nBits (if coinstake.nTime ≠ 0 then coinstake.nTime else block.header.nTime)
    else pure Uint256.zero
  match kernel with
  | .error e => (.error e, pindex)
  | .ok hashProofOfStake =>
    let nEntropyBit := getStakeEntropyBit hash256 net block
    match computeNextStakeModifier hash256 m chainparams draw sort (pindex :: pindexPrev) with
    | none => (.error (.error "ConnectBlock() : ComputeNextStakeModifier() failed"), pindex)
    | some (nStakeModifier, fGeneratedStakeModifier) =>
      match tentativeStakeModifierChecksum hash256 chainparams.consensus.hashGenesisBlock pindex
          pindexPrev nEntropyBit nStakeModifier fGeneratedStakeModifier hashProofOfStake with
      | none => (.error (.error "ConnectBlock() : SetStakeEntropyBit() failed"), pindex)
      | some (.error what) => (.error (.thrown what), pindex)
      | some (.ok (nStakeModifierChecksum, pindex)) =>
        if !checkStakeModifierCheckpoints net pindex.nHeight nStakeModifierChecksum then
          (.error (.error ("ConnectBlock() : Rejected by stake modifier checkpoint height=" ++
            toString pindex.nHeight ++ ", modifier=0x" ++ formatHex 16 nStakeModifier.toNat)),
            pindex)
        else if fJustCheck then (.ok (), pindex)
        else
          commitStakeFields block pindex hashProofOfStake nEntropyBit nStakeModifier
            fGeneratedStakeModifier nStakeModifierChecksum

/-- **The restore gives the entry back.**  The tentative writes touch the flags, the
modifier and the proof hash only, and the backups hold exactly those; what is left is the
checksum of the entry as the writes left it. -/
theorem tentativeStakeModifierChecksum_eq (hashGenesisBlock : Uint256) (pindex : CBlockIndex)
    (pindexPrev : List CBlockIndex) (nEntropyBit : UInt32) (nStakeModifier : UInt64)
    (fGenerated : Bool) (hashProofOfStake : Uint256) :
    tentativeStakeModifierChecksum hash256 hashGenesisBlock pindex pindexPrev nEntropyBit
        nStakeModifier fGenerated hashProofOfStake =
      ((pindex.setStakeEntropyBit nEntropyBit).map fun p =>
        { p.setStakeModifier nStakeModifier fGenerated with
          hashProofOfStake := hashProofOfStake }).map
        fun p => (getStakeModifierChecksum hash256 hashGenesisBlock p pindexPrev).map
          fun c => (c, pindex) := by
  unfold tentativeStakeModifierChecksum CBlockIndex.setStakeEntropyBit
  split
  case isTrue => rfl
  case isFalse =>
    dsimp only [Option.pure_def, Option.bind_eq_bind, Option.bind_some, Option.map_some]
    cases getStakeModifierChecksum hash256 hashGenesisBlock _ pindexPrev <;> rfl

/-- The checksum reads the flags, the proof hash and the modifier of the entry. -/
theorem getStakeModifierChecksum_congr {p q : CBlockIndex} (hhash : p.phashBlock = q.phashBlock)
    (hflags : p.nFlags = q.nFlags) (hproof : p.hashProofOfStake = q.hashProofOfStake)
    (hmod : p.nStakeModifier = q.nStakeModifier) (hashGenesisBlock : Uint256)
    (pindexPrev : List CBlockIndex) :
    getStakeModifierChecksum hash256 hashGenesisBlock p pindexPrev =
      getStakeModifierChecksum hash256 hashGenesisBlock q pindexPrev := by
  unfold getStakeModifierChecksum
  rw [hhash, hflags, hproof, hmod]

/-- The commit writes, from the entry the call was given, what the tentative writes wrote,
except the proof hash of a proof-of-work body, which it leaves as it was. -/
theorem writeStakeFields_fields {block : CBlock} {pindex pindexSet p : CBlockIndex}
    {hashProofOfStake : Uint256} {nEntropyBit : UInt32} {nStakeModifier : UInt64}
    {fGenerated : Bool} {checksum : UInt32}
    (hset : pindex.setStakeEntropyBit nEntropyBit = some pindexSet)
    (hw : writeStakeFields block pindex hashProofOfStake nEntropyBit nStakeModifier fGenerated
      checksum = some p) :
    p.phashBlock = pindexSet.phashBlock ∧
      p.nFlags = (pindexSet.setStakeModifier nStakeModifier fGenerated).nFlags ∧
      p.nStakeModifier = nStakeModifier ∧
      p.hashProofOfStake =
        (if block.isProofOfStake then hashProofOfStake else pindex.hashProofOfStake) ∧
      p.nStakeModifierChecksum = checksum := by
  unfold CBlockIndex.setStakeEntropyBit at hset
  split at hset
  case isTrue => cases hset
  case isFalse hbit =>
    cases hset
    cases hpos : block.isProofOfStake
    all_goals
      simp only [writeStakeFields, hpos, CBlockIndex.setStakeEntropyBit, if_neg hbit,
        Option.pure_def, Option.bind_eq_bind, Option.bind_some, Option.some.injEq] at hw
      subst hw
      exact ⟨rfl, rfl, rfl, rfl, rfl⟩

/-- **The committed checksum is the entry's.**  The commit stores the checksum taken over
the tentative writes; it is the checksum of the committed entry when the commit writes
the same proof hash, which it does for a proof-of-stake body, and which the entry already
holds otherwise when it held that hash before. -/
theorem writeStakeFields_checksum {block : CBlock} {pindex pindexSet p : CBlockIndex}
    {hashProofOfStake : Uint256} {nEntropyBit : UInt32} {nStakeModifier : UInt64}
    {fGenerated : Bool} {hashGenesisBlock : Uint256} {pindexPrev : List CBlockIndex}
    {checksum : UInt32}
    (hset : pindex.setStakeEntropyBit nEntropyBit = some pindexSet)
    (hcs : getStakeModifierChecksum hash256 hashGenesisBlock
        { pindexSet.setStakeModifier nStakeModifier fGenerated with
          hashProofOfStake := hashProofOfStake } pindexPrev = .ok checksum)
    (hw : writeStakeFields block pindex hashProofOfStake nEntropyBit nStakeModifier fGenerated
      checksum = some p)
    (hproof : block.isProofOfStake = true ∨ pindex.hashProofOfStake = hashProofOfStake) :
    getStakeModifierChecksum hash256 hashGenesisBlock p pindexPrev = .ok p.nStakeModifierChecksum := by
  obtain ⟨hhash, hflags, hmod, hproofp, hstored⟩ := writeStakeFields_fields hset hw
  rw [hstored, ← hcs]
  symm
  apply getStakeModifierChecksum_congr
  case hhash => exact hhash.symm
  case hflags => exact hflags.symm
  case hmod => exact hmod.symm
  case hproof =>
    rw [hproofp]
    split
    case isTrue => rfl
    case isFalse hpos => exact (hproof.resolve_left hpos).symm

/-- Once the entropy bit was set, the commit sets it again and succeeds: it is
`writeStakeFields` on the entry in place. -/
theorem commitStakeFields_eq {block : CBlock} {pindex pindexSet : CBlockIndex}
    {nEntropyBit : UInt32} (hset : pindex.setStakeEntropyBit nEntropyBit = some pindexSet)
    (hashProofOfStake : Uint256) (nStakeModifier : UInt64) (fGenerated : Bool)
    (checksum : UInt32) :
    commitStakeFields block pindex hashProofOfStake nEntropyBit nStakeModifier fGenerated
        checksum =
      match writeStakeFields block pindex hashProofOfStake nEntropyBit nStakeModifier fGenerated
          checksum with
      | none => (.error (.error "ConnectBlock() : SetStakeEntropyBit() failed"), pindex)
      | some p => (.ok (), p) := by
  unfold CBlockIndex.setStakeEntropyBit at hset
  split at hset
  case isTrue => cases hset
  case isFalse hbit =>
    cases hpos : block.isProofOfStake
    all_goals
      simp only [writeStakeFields, commitStakeFields, hpos, CBlockIndex.setStakeEntropyBit,
        if_neg hbit, Option.pure_def, Option.bind_eq_bind, Option.bind_some]

/-- **The in-place model refines the pure one.**  The call returns what the pure model
returns, and leaves the entry the pure model gives back when it succeeds and the entry it
was given when it fails. -/
theorem sumcoinContextualBlockChecksInPlace_eq (block : CBlock) (pindex : CBlockIndex)
    (pindexPrev : List CBlockIndex) (fJustCheck : Bool) :
    sumcoinContextualBlockChecksInPlace hash256 chainparams verifyScript m chain txIndex draw sort
        block pindex pindexPrev fJustCheck =
      match sumcoinContextualBlockChecks hash256 chainparams verifyScript m chain txIndex draw sort
          block pindex pindexPrev fJustCheck with
      | .error e => (.error e, pindex)
      | .ok p => (.ok (), p) := by
  unfold sumcoinContextualBlockChecksInPlace sumcoinContextualBlockChecks
  dsimp only
  rw [Except.ite_bind]
  generalize (if block.isProofOfStake = true then _ else pure Uint256.zero : Except BlockFailure Uint256) = K
  cases K
  case error e => rfl
  case ok hashProofOfStake =>
    dsimp only [bind, Except.bind]
    rcases computeNextStakeModifier hash256 m chainparams draw sort (pindex :: pindexPrev) with
      _ | ⟨nStakeModifier, fGenerated⟩
    case none => rfl
    case some =>
      dsimp only
      rw [tentativeStakeModifierChecksum_eq]
      rcases hset : pindex.setStakeEntropyBit (getStakeEntropyBit hash256 chainparams.network block)
        with _ | pindexSet
      case none => rfl
      case some =>
        dsimp only [Option.map_some]
        generalize getStakeModifierChecksum hash256 chainparams.consensus.hashGenesisBlock _
          pindexPrev = C
        cases C
        case error what => rfl
        case ok checksum =>
          dsimp only [Except.map]
          rw [commitStakeFields_eq hset]
          generalize checkStakeModifierCheckpoints chainparams.network _ _ = cp
          generalize writeStakeFields block pindex _ _ _ _ _ = W
          cases cp <;> cases fJustCheck <;> cases W <;> rfl

/-- What a successful run of the pure model did: the kernel gave a proof hash (zero for a
proof-of-work body), the modifier was computed and the entropy bit set, and the entry is
the one it was given when it only checks, and the commit of the checksum over the
tentative writes otherwise. -/
theorem sumcoinContextualBlockChecks_ok {block : CBlock} {pindex p : CBlockIndex}
    {pindexPrev : List CBlockIndex} {fJustCheck : Bool}
    (h : sumcoinContextualBlockChecks hash256 chainparams verifyScript m chain txIndex draw sort
      block pindex pindexPrev fJustCheck = .ok p) :
    ∃ hashProofOfStake nStakeModifier fGenerated pindexSet checksum,
      (block.isProofOfStake = false → hashProofOfStake = Uint256.zero) ∧
      pindex.setStakeEntropyBit (getStakeEntropyBit hash256 chainparams.network block) =
        some pindexSet ∧
      getStakeModifierChecksum hash256 chainparams.consensus.hashGenesisBlock
          { pindexSet.setStakeModifier nStakeModifier fGenerated with
            hashProofOfStake := hashProofOfStake } pindexPrev = .ok checksum ∧
      if fJustCheck then p = pindex
      else writeStakeFields block pindex hashProofOfStake
        (getStakeEntropyBit hash256 chainparams.network block) nStakeModifier fGenerated
        checksum = some p := by
  unfold sumcoinContextualBlockChecks at h
  dsimp only at h
  rw [Except.ite_bind] at h
  generalize hK : (if block.isProofOfStake = true then _ else pure Uint256.zero :
    Except BlockFailure Uint256) = K at h
  cases K
  case error e => cases h
  case ok hashProofOfStake =>
    have hpow : block.isProofOfStake = false → hashProofOfStake = Uint256.zero := by
      intro hpos
      rw [hpos] at hK
      cases hK
      rfl
    dsimp only [bind, Except.bind] at h
    split at h
    case h_1 => cases h
    case h_2 nStakeModifier fGenerated _ =>
      rcases hset : pindex.setStakeEntropyBit (getStakeEntropyBit hash256 chainparams.network block)
        with _ | pindexSet
      case none =>
        rw [hset] at h
        cases h
      case some =>
        rw [hset] at h
        dsimp only [Option.map_some] at h
        split at h
        case h_1 => cases h
        case h_2 checksum hcs =>
          refine ⟨hashProofOfStake, nStakeModifier, fGenerated, pindexSet, checksum, hpow, rfl, hcs, ?_⟩
          split at h
          case isTrue => cases h
          case isFalse =>
            cases fJustCheck
            case true =>
              cases h
              rfl
            case false =>
              simp only [Bool.false_eq_true, ↓reduceIte] at h ⊢
              split at h
              case h_1 => cases h
              case h_2 hw =>
                cases h
                exact hw

/-- The commit leaves the block type of the entry as it was: the entropy bit and the
modifier flag are other bits. -/
theorem writeStakeFields_isProofOfStake {block : CBlock} {pindex p : CBlockIndex}
    {hashProofOfStake : Uint256} {nEntropyBit : UInt32} {nStakeModifier : UInt64}
    {fGenerated : Bool} {checksum : UInt32}
    (hw : writeStakeFields block pindex hashProofOfStake nEntropyBit nStakeModifier fGenerated
      checksum = some p) :
    p.isProofOfStake = pindex.isProofOfStake := by
  unfold writeStakeFields at hw
  simp only [Option.pure_def, Option.bind_eq_bind, Option.bind_eq_some_iff,
    Option.some.injEq] at hw
  obtain ⟨pindexW, hset, rfl⟩ := hw
  calc _ = (pindexW.setStakeModifier nStakeModifier fGenerated).isProofOfStake := rfl
    _ = pindexW.isProofOfStake := CBlockIndex.isProofOfStake_setStakeModifier _ _ _
    _ = _ := CBlockIndex.isProofOfStake_of_setStakeEntropyBit hset
    _ = pindex.isProofOfStake := by split <;> rfl

/-- `SumcoinContextualBlockChecks` never changes the block type of the entry. -/
theorem sumcoinContextualBlockChecksInPlace_isProofOfStake (block : CBlock)
    (pindex : CBlockIndex) (pindexPrev : List CBlockIndex) (fJustCheck : Bool) :
    (sumcoinContextualBlockChecksInPlace hash256 chainparams verifyScript m chain txIndex draw
      sort block pindex pindexPrev fJustCheck).2.isProofOfStake = pindex.isProofOfStake := by
  rw [sumcoinContextualBlockChecksInPlace_eq]
  cases hpure : sumcoinContextualBlockChecks hash256 chainparams verifyScript m chain txIndex
    draw sort block pindex pindexPrev fJustCheck
  case error => rfl
  case ok p =>
    obtain ⟨_, _, _, _, _, -, -, -, hp⟩ :=
      sumcoinContextualBlockChecks_ok hash256 chainparams verifyScript m chain txIndex draw sort
        hpure
    cases fJustCheck
    case true =>
      rw [if_pos rfl] at hp
      rw [hp]
    case false =>
      rw [if_neg Bool.false_ne_true] at hp
      exact writeStakeFields_isProofOfStake hp

/-- `SumcoinContextualBlockChecks` leaves the entry as it was given unless it commits:
when it fails, and whenever it only checks.  When it commits, the checksum it stores is the
checksum of the entry it leaves, provided the body is proof-of-stake or the entry held the
zero proof hash before the call. -/
theorem sumcoinContextualBlockChecksInPlace_untouched_unless_committed (block : CBlock)
    (pindex : CBlockIndex) (pindexPrev : List CBlockIndex) (fJustCheck : Bool) :
    (∀ e, (sumcoinContextualBlockChecksInPlace hash256 chainparams verifyScript m chain txIndex
        draw sort block pindex pindexPrev fJustCheck).1 = .error e →
      (sumcoinContextualBlockChecksInPlace hash256 chainparams verifyScript m chain txIndex
        draw sort block pindex pindexPrev fJustCheck).2 = pindex) ∧
    (fJustCheck = true →
      (sumcoinContextualBlockChecksInPlace hash256 chainparams verifyScript m chain txIndex
        draw sort block pindex pindexPrev fJustCheck).2 = pindex) ∧
    ((sumcoinContextualBlockChecksInPlace hash256 chainparams verifyScript m chain txIndex
        draw sort block pindex pindexPrev fJustCheck).1 = .ok () → fJustCheck = false →
      block.isProofOfStake = true ∨ pindex.hashProofOfStake = Uint256.zero →
      getStakeModifierChecksum hash256 chainparams.consensus.hashGenesisBlock
          (sumcoinContextualBlockChecksInPlace hash256 chainparams verifyScript m chain txIndex
            draw sort block pindex pindexPrev fJustCheck).2 pindexPrev =
        .ok (sumcoinContextualBlockChecksInPlace hash256 chainparams verifyScript m chain txIndex
          draw sort block pindex pindexPrev fJustCheck).2.nStakeModifierChecksum) := by
  rw [sumcoinContextualBlockChecksInPlace_eq]
  cases hpure : sumcoinContextualBlockChecks hash256 chainparams verifyScript m chain txIndex
    draw sort block pindex pindexPrev fJustCheck
  case error e =>
    dsimp only
    exact ⟨fun _ _ => rfl, fun _ => rfl, fun h => nomatch h⟩
  case ok p =>
    obtain ⟨hashProofOfStake, nStakeModifier, fGenerated, pindexSet, checksum, hpow, hset, hcs, hp⟩ :=
      sumcoinContextualBlockChecks_ok hash256 chainparams verifyScript m chain txIndex draw sort
        hpure
    dsimp only
    refine ⟨?_, fun hj => ?_, fun _ hj hproof => ?_⟩
    case refine_1 =>
      intro _ h
      cases h
    case refine_2 =>
      rw [hj, if_pos rfl] at hp
      exact hp
    case refine_3 =>
      rw [hj] at hp
      -- a proof-of-work body commits the zero proof hash the kernel step gave it
      refine writeStakeFields_checksum hash256 hset hcs hp ?_
      cases hpos : block.isProofOfStake
      case true => exact Or.inl rfl
      case false =>
        rw [hpow hpos, ← hpos]
        exact hproof
end

/-! ## Runs on the genesis block -/

/-- `SumcoinContextualBlockChecks` on the main genesis block as the first entry, under
`chainparams`, with a verifier that accepts every script, no other entry and no shuffle. -/
def genesisContextualChecks (chainparams : ChainParams) (pindex : CBlockIndex)
    (fJustCheck : Bool) : Except BlockFailure Unit × CBlockIndex :=
  sumcoinContextualBlockChecksInPlace cHash256 chainparams (fun _ _ _ _ _ => .ok ())
    (fun _ => none) ⟨[]⟩ none id id mainGenesis pindex [] fJustCheck

/-- The entry of the main genesis block before it is connected, under its hash. -/
def genesisEntry : CBlockIndex := CBlockIndex.ofHeader mainConsensus.hashGenesisBlock mainGenesis.header

/-- The same entry with a proof hash left in it. -/
def stalePowEntry : CBlockIndex := { genesisEntry with hashProofOfStake := .ofNat 1 }

/-- On the testnet the genesis checksum misses the checkpoint 0 the map keeps for height 0,
and the entry stays as it was; on the main network a check leaves it, and a commit
stores its checksum. -/
theorem sumcoinContextualBlockChecksInPlace_genesis :
    (genesisContextualChecks { mainParams with network := .testnet } genesisEntry false).2 =
        genesisEntry ∧
      (genesisContextualChecks mainParams genesisEntry true).2 = genesisEntry ∧
      getStakeModifierChecksum cHash256 mainParams.consensus.hashGenesisBlock
          (genesisContextualChecks mainParams genesisEntry false).2 [] =
        .ok (genesisContextualChecks mainParams genesisEntry false).2.nStakeModifierChecksum := by
  have hfail : (genesisContextualChecks { mainParams with network := .testnet } genesisEntry
      false).1 = .error (.error ("ConnectBlock() : Rejected by stake modifier checkpoint " ++
        "height=0, modifier=0x0000000000000000")) := by
    decide +kernel
  have hok : (genesisContextualChecks mainParams genesisEntry false).1 = .ok () := by
    decide +kernel
  have hfailed := (sumcoinContextualBlockChecksInPlace_untouched_unless_committed cHash256
    { mainParams with network := .testnet } (fun _ _ _ _ _ => .ok ()) (fun _ => none) ⟨[]⟩ none
    id id mainGenesis genesisEntry [] false).1 _ hfail
  have hchecked := (sumcoinContextualBlockChecksInPlace_untouched_unless_committed cHash256
    mainParams (fun _ _ _ _ _ => .ok ()) (fun _ => none) ⟨[]⟩ none id id mainGenesis genesisEntry
    [] true).2.1 rfl
  have hcommitted := (sumcoinContextualBlockChecksInPlace_untouched_unless_committed cHash256
    mainParams (fun _ _ _ _ _ => .ok ()) (fun _ => none) ⟨[]⟩ none id id mainGenesis genesisEntry
    [] false).2.2 hok rfl (Or.inr rfl)
  refine ⟨hfailed, hchecked, ?_⟩
  unfold genesisContextualChecks
  exact hcommitted

/-- A proof-of-work body committed into an entry that holds a proof hash: the call
succeeds, and the checksum it stores was taken with the zero proof hash while the entry
keeps the old one. -/
theorem sumcoinContextualBlockChecksInPlace_stale_proof_hash :
    mainGenesis.isProofOfStake = false ∧ stalePowEntry.hashProofOfStake ≠ Uint256.zero ∧
      (genesisContextualChecks mainParams stalePowEntry false).1 = .ok () ∧
      getStakeModifierChecksum cHash256 mainParams.consensus.hashGenesisBlock
          (genesisContextualChecks mainParams stalePowEntry false).2 [] ≠
        .ok (genesisContextualChecks mainParams stalePowEntry false).2.nStakeModifierChecksum := by
  decide +kernel

end Sumcoin
