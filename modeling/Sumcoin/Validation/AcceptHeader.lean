import Sumcoin.Validation.CheckBlock

/-!
# Accepting headers: `AcceptBlockHeader`, `ContextualCheckBlockHeader`, `AddToBlockIndex`

A header that is not yet indexed passes `CheckBlockHeader`, whose proof-of-work check
is skipped when the header's own `nFlags` claims proof of stake, then needs an indexed
predecessor that has not failed, then `ContextualCheckBlockHeader`: checkpoints,
timestamps, version.  `AddToBlockIndex` stores it, copying `nFlags` into the entry.

`ContextualCheckBlockHeader` computes `GetNextTargetRequired` and compares it with
`nBits`, but the rejecting `return` is commented out: the comparison only logs.  The
model keeps the computation, which can throw, and not the comparison.

## Main definitions

* `BlockIndexState`, `contextualCheckBlockHeader`, `addToBlockIndex`, `acceptBlockHeader`.
-/

namespace Sumcoin

/-- What header acceptance reads and writes: `m_block_index`, the entries of
`m_failed_blocks` in their iteration order, and `pindexBestHeader`. -/
structure BlockIndexState where
  mBlockIndex : BlockMap
  mFailedBlocks : List Uint256
  pindexBestHeader : Option Uint256

/-- The state of a node with no block. -/
def BlockIndexState.empty : BlockIndexState := ⟨fun _ => none, [], none⟩

/-- `strprintf("%08x", n)`. -/
def formatHex8 (n : UInt32) : String :=
  String.ofList ((List.range 8).reverse.map fun i => Uint256.hexDigit (n.toNat / 16 ^ i % 16))

/-- `GetLastCheckpoint(data)`: the highest checkpoint whose block is indexed. -/
def getLastCheckpoint (m : BlockMap) (checkpoints : List (Nat × Uint256)) : Option CBlockIndex :=
  checkpoints.reverse.findSome? fun c => m c.2

section

variable (hash256 : List UInt8 → Uint256) (chainparams : ChainParams)

/-- `ContextualCheckBlockHeader(block, state, params, pindexPrev, nAdjustedTime)`. -/
def contextualCheckBlockHeader (m : BlockMap) (block : CBlockHeader)
    (pindexPrev : List CBlockIndex) (nAdjustedTime : Int) : Except BlockFailure Unit :=
  match pindexPrev with
  | [] => pure ()
  | prev :: _ => do
    let net := chainparams.network
    let nHeight := prev.nHeight + 1
    -- the comparison with `nBits` only logs; the retarget it runs can still throw
    match getNextTargetRequired chainparams pindexPrev
        (block.nFlags &&& CBlockIndex.blockProofOfStake != 0) with
    | .error what => throw (.thrown what)
    | .ok _ => pure ()
    if chainparams.fCheckpointsEnabled then
      match getLastCheckpoint m chainparams.checkpoints with
      | some pcheckpoint =>
        if nHeight < pcheckpoint.nHeight then
          throw (.invalid .blockCheckpoint "bad-fork-prior-to-checkpoint" "")
      | none => pure ()
    let nTime : Int := block.nTime.toNat
    let drift := maxFutureDrift net block.nTime
    if nTime ≤ getMedianTimePast pindexPrev || nTime + drift < prev.getBlockTime then
      throw (.invalid .blockInvalidHeader "time-too-old" "block's timestamp is too early")
    if nTime > nAdjustedTime + drift then
      throw (.invalid .blockTimeFuture "time-too-new" "block timestamp too far in the future")
    if block.nVersion < 2 && isProtocolV06 net pindexPrev then
      let v := formatHex8 block.nVersion.toUInt32
      throw (.invalid .blockInvalidHeader ("bad-version(0x" ++ v ++ ")")
        ("rejected nVersion=0x" ++ v ++ " block"))

/-- `BlockManager::AddToBlockIndex(block)`: the entry already stored under the hash, or
a new one after its predecessor, with the flags of the header, its trust added to
its predecessor's and validity raised to `BLOCK_VALID_TREE`.  The new entry is in the
map before its predecessor is looked up, as in the source. -/
def addToBlockIndex (st : BlockIndexState) (block : CBlockHeader) :
    Except String (BlockIndexState × CBlockIndex) := do
  let hash := block.getHash hash256
  match st.mBlockIndex hash with
  | some pindex => pure (st, pindex)
  | none =>
    let m := st.mBlockIndex.insert hash (CBlockIndex.ofHeader hash block)
    let pindexNew := CBlockIndex.ofHeader hash block
    let pindexNew := match m block.hashPrevBlock with
      | some prev =>
        { pindexNew with pprev := some block.hashPrevBlock, nHeight := prev.nHeight + 1 }
      | none => pindexNew
    let pprev : Option CBlockIndex := pindexNew.pprev.bind m
    let pindexNew := { pindexNew with
      nTimeMax := match pprev with
        | some prev => max prev.nTimeMax pindexNew.nTime
        | none => pindexNew.nTime }
    let pindexNew := if block.nFlags &&& CBlockIndex.blockProofOfStake != 0 then
      pindexNew.setProofOfStake else pindexNew
    let trust ← getBlockTrust pindexNew
    let prevTrust : ArithUint256 := match pprev with
      | some prev => prev.nChainTrust
      | none => BaseUint.zero
    let pindexNew := { pindexNew with nChainTrust := prevTrust.add trust }
    let pindexNew := (pindexNew.raiseValidity blockValidTree).1
    let best := match (st.pindexBestHeader.bind m : Option CBlockIndex) with
      | some b => if b.nChainTrust.lt pindexNew.nChainTrust then some hash else st.pindexBestHeader
      | none => some hash
    pure ({ st with mBlockIndex := m.insert hash pindexNew, pindexBestHeader := best }, pindexNew)

/-- The loop over `m_failed_blocks`: the first failed entry that is an ancestor of
`pindexPrev`. -/
def findFailedAncestor (m : BlockMap) (pindexPrev : List CBlockIndex) :
    List Uint256 → Option CBlockIndex
  | [] => none
  | f :: rest =>
    match m f with
    | some failedit =>
      if (getAncestor pindexPrev failedit.nHeight).map (·.phashBlock) = some f then some failedit
      else findFailedAncestor m pindexPrev rest
    | none => findFailedAncestor m pindexPrev rest

/-- `while (invalid_walk != failedit)`: every entry from `pindexPrev` down to the failed
ancestor, that one excluded, gets `BLOCK_FAILED_CHILD`. -/
def markFailedChild (m : BlockMap) (failed : Uint256) : List CBlockIndex → BlockMap
  | [] => m
  | w :: rest =>
    if w.phashBlock = failed then m
    else
      markFailedChild (m.insert w.phashBlock { w with nStatus := w.nStatus ||| blockFailedChild })
        failed rest

/-- `BlockManager::AddToBlockIndex` as `AcceptBlockHeader` calls it, its exception
carried as a failure. -/
def addHeader (st : BlockIndexState) (block : CBlockHeader) :
    BlockIndexState × Except BlockFailure CBlockIndex :=
  match addToBlockIndex hash256 st block with
  | .ok (st', pindex) => (st', .ok pindex)
  | .error what => (st, .error (.thrown what))

/-- `BlockManager::AcceptBlockHeader(block, state, chainparams, &pindex)`, at adjusted
time `nAdjustedTime`: the state after the call, and the entry or the failure. -/
def acceptBlockHeader (st : BlockIndexState) (block : CBlockHeader) (nAdjustedTime : Int) :
    BlockIndexState × Except BlockFailure CBlockIndex :=
  let hash := block.getHash hash256
  let m := st.mBlockIndex
  if hash ≠ chainparams.consensus.hashGenesisBlock then
    match m hash with
    | some pindex =>
      if pindex.nStatus &&& blockFailedMask ≠ 0 then
        (st, .error (.invalid .blockCachedInvalid "duplicate" ""))
      else (st, .ok pindex)
    | none =>
      match checkBlockHeader hash256 chainparams block
          (block.nFlags &&& CBlockIndex.blockProofOfStake == 0) with
      | .error e => (st, .error e)
      | .ok () =>
        match m block.hashPrevBlock with
        | none => (st, .error (.invalid .blockMissingPrev "prev-blk-not-found" ""))
        | some pindexPrev =>
          if pindexPrev.nStatus &&& blockFailedMask ≠ 0 then
            (st, .error (.invalid .blockInvalidPrev "bad-prevblk" ""))
          else
            let prevChain := chainOf m pindexPrev
            match contextualCheckBlockHeader chainparams m block prevChain nAdjustedTime with
            | .error e => (st, .error e)
            | .ok () =>
              let failed := if !pindexPrev.isValid blockValidScripts then
                findFailedAncestor m prevChain st.mFailedBlocks else none
              match failed with
              | some failedit =>
                ({ st with mBlockIndex := markFailedChild m failedit.phashBlock prevChain },
                  .error (.invalid .blockInvalidPrev "bad-prevblk" ""))
              | none => addHeader hash256 st block
  else addHeader hash256 st block

end

/-! ## What acceptance establishes -/

section

variable {hash256 : List UInt8 → Uint256} {chainparams : ChainParams} {st st' : BlockIndexState}
  {block : CBlockHeader} {pindex : CBlockIndex} {nAdjustedTime : Int}

/-- The contextual checks pass exactly when the retarget does not throw and the
checkpoint, both timestamp bounds and the version pass; the retarget's value is not
among the conditions. -/
theorem contextualCheckBlockHeader_eq_ok {m : BlockMap} {prev : CBlockIndex}
    {rest : List CBlockIndex} :
    contextualCheckBlockHeader chainparams m block (prev :: rest) nAdjustedTime = .ok () ↔
      (∃ nTarget, getNextTargetRequired chainparams (prev :: rest)
          (block.nFlags &&& CBlockIndex.blockProofOfStake != 0) = .ok nTarget) ∧
      (chainparams.fCheckpointsEnabled = true → ∀ pcheckpoint,
        getLastCheckpoint m chainparams.checkpoints = some pcheckpoint →
          pcheckpoint.nHeight ≤ prev.nHeight + 1) ∧
      getMedianTimePast (prev :: rest) < block.nTime.toNat ∧
      prev.getBlockTime ≤ block.nTime.toNat + maxFutureDrift chainparams.network block.nTime ∧
      block.nTime.toNat ≤ nAdjustedTime + maxFutureDrift chainparams.network block.nTime ∧
      ¬(block.nVersion < 2 ∧ isProtocolV06 chainparams.network (prev :: rest) = true) := by
  unfold contextualCheckBlockHeader
  cases getNextTargetRequired chainparams (prev :: rest)
      (block.nFlags &&& CBlockIndex.blockProofOfStake != 0) with
  | error what => simp
  | ok nTarget =>
    -- the checkpoint guard is a match on the last indexed checkpoint
    cases getLastCheckpoint m chainparams.checkpoints <;>
      cases chainparams.fCheckpointsEnabled <;> simp [and_assoc]

/-- An indexed header is returned as stored, and nothing changes. -/
theorem addToBlockIndex_of_mem (h : st.mBlockIndex (block.getHash hash256) = some pindex) :
    addToBlockIndex hash256 st block = .ok (st, pindex) := by
  simp only [addToBlockIndex, h]
  rfl

/-- A new header is stored under its hash with its header fields and the type its
`nFlags` claims. -/
theorem addToBlockIndex_of_new (hnew : st.mBlockIndex (block.getHash hash256) = none)
    (h : addToBlockIndex hash256 st block = .ok (st', pindex)) :
    st'.mBlockIndex = st.mBlockIndex.insert (block.getHash hash256) pindex ∧
      st'.mFailedBlocks = st.mFailedBlocks ∧
      pindex.phashBlock = block.getHash hash256 ∧ pindex.nBits = block.nBits ∧
      pindex.nTime = block.nTime ∧
      pindex.isProofOfStake = (block.nFlags &&& CBlockIndex.blockProofOfStake != 0) := by
  unfold addToBlockIndex at h
  simp only [hnew, Except.bind_eq_ok, Except.pure_eq_ok, Prod.mk.injEq] at h
  obtain ⟨trust, -, rfl, rfl⟩ := h
  refine ⟨by simp, rfl, ?_⟩
  -- the entry is built by cases on the predecessor's lookup and on the header's flag
  cases hpos : block.nFlags &&& CBlockIndex.blockProofOfStake != 0 <;>
    cases (st.mBlockIndex.insert (block.getHash hash256)
      (CBlockIndex.ofHeader (block.getHash hash256) block)) block.hashPrevBlock <;>
    simp [hpos, CBlockIndex.raiseValidity, CBlockIndex.ofHeader, CBlockIndex.isProofOfStake]

theorem addHeader_eq_ok :
    addHeader hash256 st block = (st', .ok pindex) ↔
      addToBlockIndex hash256 st block = .ok (st', pindex) := by
  unfold addHeader
  split <;> simp_all

/-- The path by which a new header other than the genesis one is accepted: its own
check, an indexed predecessor that has not failed, the contextual checks, no failed
ancestor, and `AddToBlockIndex`. -/
theorem acceptBlockHeader_eq_ok_of_new
    (hgen : block.getHash hash256 ≠ chainparams.consensus.hashGenesisBlock)
    (hnew : st.mBlockIndex (block.getHash hash256) = none)
    (h : acceptBlockHeader hash256 chainparams st block nAdjustedTime = (st', .ok pindex)) :
    checkBlockHeader hash256 chainparams block
        (block.nFlags &&& CBlockIndex.blockProofOfStake == 0) = .ok () ∧
      ∃ pindexPrev, st.mBlockIndex block.hashPrevBlock = some pindexPrev ∧
        pindexPrev.nStatus &&& blockFailedMask = 0 ∧
        contextualCheckBlockHeader chainparams st.mBlockIndex block
          (chainOf st.mBlockIndex pindexPrev) nAdjustedTime = .ok () ∧
        addToBlockIndex hash256 st block = .ok (st', pindex) := by
  simp only [acceptBlockHeader, hgen, hnew, ne_eq, not_false_eq_true, ↓reduceIte] at h
  split at h
  case h_1 => cases h
  case h_2 hheader =>
    refine ⟨hheader, ?_⟩
    split at h
    case h_1 => cases h
    case h_2 pindexPrev hprev =>
      split at h
      case isTrue => cases h
      case isFalse hfailed =>
        split at h
        case h_1 => cases h
        case h_2 hctx =>
          split at h
          case h_1 => cases h
          case h_2 => exact ⟨pindexPrev, hprev, not_not.mp hfailed, hctx, addHeader_eq_ok.mp h⟩

end

/-! ## The difficulty bits are not checked against the retarget -/

/-- What accepting a new header, other than the genesis one, has checked of it, with
`pindexPrev` its predecessor: the predecessor is indexed and has not failed, the retarget
from it does not throw, the header's time is past the median, and the proof of work
holds unless `nFlags` claims proof of stake.  Nothing relates `nBits` to the retarget. -/
structure AcceptedHeaderChecks (hash256 : List UInt8 → Uint256) (chainparams : ChainParams)
    (m : BlockMap) (block : CBlockHeader) (pindexPrev : CBlockIndex) : Prop where
  prev_indexed : m block.hashPrevBlock = some pindexPrev
  prev_not_failed : pindexPrev.nStatus &&& blockFailedMask = 0
  retarget_ok : ∃ nTarget, getNextTargetRequired chainparams (chainOf m pindexPrev)
    (block.nFlags &&& CBlockIndex.blockProofOfStake != 0) = .ok nTarget
  after_median : getMedianTimePast (chainOf m pindexPrev) < block.nTime.toNat
  pow : block.nFlags &&& CBlockIndex.blockProofOfStake = 0 →
    checkProofOfWork (block.getHash hash256) block.nBits chainparams.consensus = true

section

variable {hash256 : List UInt8 → Uint256} {chainparams : ChainParams} {st : BlockIndexState}
  {block : CBlockHeader} {nAdjustedTime : Int}

/-- A new header other than the genesis one that `AcceptBlockHeader` accepts has passed
`AcceptedHeaderChecks`, and is stored under its hash with its own `nBits`. -/
theorem acceptBlockHeader_new_checks
    (hgen : block.getHash hash256 ≠ chainparams.consensus.hashGenesisBlock)
    (hnew : st.mBlockIndex (block.getHash hash256) = none)
    (hok : (acceptBlockHeader hash256 chainparams st block nAdjustedTime).2.isOk = true) :
    ∃ pindexPrev pindex, AcceptedHeaderChecks hash256 chainparams st.mBlockIndex block pindexPrev ∧
      (acceptBlockHeader hash256 chainparams st block nAdjustedTime).2 = .ok pindex ∧
      (acceptBlockHeader hash256 chainparams st block nAdjustedTime).1.mBlockIndex
        (block.getHash hash256) = some pindex ∧
      pindex.nBits = block.nBits := by
  rcases hr : acceptBlockHeader hash256 chainparams st block nAdjustedTime with ⟨st', _ | pindex⟩
  case error => simp [hr, Except.isOk, Except.toBool] at hok
  case ok =>
    obtain ⟨hheader, pindexPrev, hprev, hfailed, hctx, hadd⟩ :=
      acceptBlockHeader_eq_ok_of_new hgen hnew hr
    obtain ⟨hm, -, -, hbits, -, -⟩ := addToBlockIndex_of_new hnew hadd
    obtain ⟨rest, hchain⟩ := chainOf_eq_cons st.mBlockIndex pindexPrev
    rw [hchain, contextualCheckBlockHeader_eq_ok] at hctx
    obtain ⟨hretarget, -, hmedian, -⟩ := hctx
    refine ⟨pindexPrev, pindex, ⟨hprev, hfailed, ?_, ?_, ?_⟩, rfl, by simp [hm], hbits⟩
    · rwa [hchain]
    · rwa [hchain]
    · intro hflag
      simpa [hflag, checkBlockHeader_eq_ok] using hheader

end

/-- The state after the main genesis block. -/
def genesisIndexState : BlockIndexState :=
  (addHeader cHash256 BlockIndexState.empty mainGenesis.header).1

/-- The mined header of `lateSpendBlock`, with proof of work and no stake flag, passes the
checks after the genesis block. -/
theorem acceptBlockHeader_new_checks_lateSpend :
    ∃ pindexPrev pindex, AcceptedHeaderChecks cHash256 mainParams genesisIndexState.mBlockIndex
        lateSpendBlock.header pindexPrev ∧
      (acceptBlockHeader cHash256 mainParams genesisIndexState lateSpendBlock.header
        1700000000).2 = .ok pindex ∧
      (acceptBlockHeader cHash256 mainParams genesisIndexState lateSpendBlock.header
        1700000000).1.mBlockIndex (lateSpendBlock.header.getHash cHash256) = some pindex ∧
      pindex.nBits = lateSpendBlock.header.nBits := by
  -- the three hypotheses in one evaluation, which shares the hashes they all compute
  have h : lateSpendBlock.header.getHash cHash256 ≠ mainParams.consensus.hashGenesisBlock ∧
      genesisIndexState.mBlockIndex (lateSpendBlock.header.getHash cHash256) = none ∧
      (acceptBlockHeader cHash256 mainParams genesisIndexState lateSpendBlock.header
        1700000000).2.isOk = true := by
    decide +kernel
  exact acceptBlockHeader_new_checks h.1 h.2.1 h.2.2

/-- A header after the genesis block that claims proof of stake, with difficulty bits 0. -/
def stakeFlaggedHeader : CBlockHeader :=
  { nVersion := 4
    hashPrevBlock := mainConsensus.hashGenesisBlock
    hashMerkleRoot := Uint256.zero
    nTime := 1700000000
    nBits := 0
    nNonce := 0
    nFlags := CBlockIndex.blockProofOfStake }

/-- After the genesis block the retarget asks for `0x1d00ffff` of either block type, but
`AcceptBlockHeader` adds `stakeFlaggedHeader` with `nBits` 0 and the mined proof-of-work
header of `lateSpendBlock` with `0x1e00ffff`. -/
theorem acceptBlockHeader_ignores_retarget :
    ((genesisIndexState.mBlockIndex mainConsensus.hashGenesisBlock).map fun pindexPrev =>
        (getNextTargetRequired mainParams (chainOf genesisIndexState.mBlockIndex pindexPrev) true,
          getNextTargetRequired mainParams (chainOf genesisIndexState.mBlockIndex pindexPrev) false)) =
        some (.ok 0x1d00ffff, .ok 0x1d00ffff) ∧
      genesisIndexState.mBlockIndex (stakeFlaggedHeader.getHash cHash256) = none ∧
      ((acceptBlockHeader cHash256 mainParams genesisIndexState stakeFlaggedHeader
        1700000000).2.map (·.nBits)) = .ok 0 ∧
      genesisIndexState.mBlockIndex (lateSpendBlock.header.getHash cHash256) = none ∧
      ((acceptBlockHeader cHash256 mainParams genesisIndexState lateSpendBlock.header
        1700000000).2.map (·.nBits)) = .ok 0x1e00ffff := by
  decide +kernel

end Sumcoin
