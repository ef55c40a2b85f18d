import Sumcoin.Validation.ContextualChecks

/-!
# Accepting a block: `AcceptBlock` and `ReceivedBlockTransactions` (`validation.cpp`)

`AcceptBlock` runs `AcceptBlockHeader` on the block's header, which indexes it when it
is new.  It then asks that the predecessor's transactions were received, returns
without processing a block it already has or did not ask for and cannot use, and checks
the body with `CheckBlock`, `ContextualCheckBlock` and `SumcoinContextualBlockChecks`.
A failed check marks the entry `BLOCK_FAILED_VALID`, unless `CheckBlock` or
`ContextualCheckBlock` found the body possibly mutated.  A passed check writes the
block, and `ReceivedBlockTransactions` marks its data received.

The entry's proof-of-stake flag is copied from the header's `nFlags` when the header is
indexed.  Peers send `nFlags` with the header, and the block hash does not cover it.
The body checks read the block type from the transactions instead.  Nothing compares
the two, and nothing after `AddToBlockIndex` writes the flag
(`acceptBlock_isProofOfStake`).

The disk writes (`SaveBlockToDisk`, `FlushStateToDisk`) are not modelled, and neither is
the relay signal.  Nor is the queue of descendants that `ReceivedBlockTransactions`
processes (`nChainTx`, `nSequenceId`, `setBlockIndexCandidates`, `mapBlocksUnlinked`).
The model returns whether the block was written (`*fNewBlock`).

## Main definitions

* `isWitnessEnabled`, `receivedBlockTransactions`, `acceptBlock`.

## Main statements

* `acceptBlock_eq_ok_true`: what a block that `AcceptBlock` writes has passed.
* `acceptBlock_isProofOfStake`: the entry it stores keeps the block type the header gave.
-/

namespace Sumcoin

/-- `MIN_BLOCKS_TO_KEEP`. -/
def minBlocksToKeep : Int := 288

/-- `BLOCK_OPT_WITNESS`. -/
def blockOptWitness : UInt32 := 128

/-- `IsWitnessEnabled(pindexPrev, params)`: from the BTC16 switch of the predecessor on. -/
def isWitnessEnabled (net : Network) (pindexPrev : List CBlockIndex) : Bool :=
  match pindexPrev with
  | [] => false
  | prev :: _ => isBTC16BIPsEnabled net prev.nTime

/-- `ReceivedBlockTransactions(block, pindexNew, pos, params)` on the entry itself: the
transaction count, the data and witness flags, and validity up to the transactions. -/
def receivedBlockTransactions (net : Network) (block : CBlock) (pindexNew : CBlockIndex)
    (pindexPrev : List CBlockIndex) : CBlockIndex :=
  let pindexNew := { pindexNew with
    nTx := block.vtx.length
    nStatus := pindexNew.nStatus ||| blockHaveData }
  let pindexNew := if isWitnessEnabled net pindexPrev then
      { pindexNew with nStatus := pindexNew.nStatus ||| blockOptWitness }
    else pindexNew
  (pindexNew.raiseValidity blockValidTransactions).1

/-- `state.IsInvalid() && state.GetResult() != BlockValidationResult::BLOCK_MUTATED`: the
failures after which `AcceptBlock` marks the entry failed.  An `error(...)` leaves the
state valid, and an exception leaves `AcceptBlock` before the mark. -/
def BlockFailure.marksFailed : BlockFailure → Bool
  | .invalid result _ _ => result != .blockMutated
  | _ => false

/-- `pindex->pprev` as the walks see it: the predecessor and its ancestors, none for the
genesis entry. -/
def prevChainOf (m : BlockMap) (pindex : CBlockIndex) : List CBlockIndex :=
  match pindex.pprev.bind m with
  | some prev => chainOf m prev
  | none => []

/-- Why `AcceptBlock` returns without processing a block it did not ask for: its data was
pruned, it has less work than the tip, it is more than `MIN_BLOCKS_TO_KEEP` ahead of the
tip, or its chain has less than the minimum work. -/
def skipsUnrequested (chain : CChain) (nMinimumChainWork : ArithUint256) (m : BlockMap)
    (pindex : CBlockIndex) : Bool :=
  let fHasMoreOrSameWork := match chain.tip m with
    | some tip => !pindex.nChainTrust.lt tip.nChainTrust
    | none => true
  let fTooFarAhead := decide ((pindex.nHeight : Int) > chain.height + minBlocksToKeep)
  pindex.nTx != 0 || !fHasMoreOrSameWork || fTooFarAhead ||
    pindex.nChainTrust.lt nMinimumChainWork

/-- The entry with `BLOCK_FAILED_VALID` set. -/
def CBlockIndex.markFailedValid (pindex : CBlockIndex) : CBlockIndex :=
  { pindex with nStatus := pindex.nStatus ||| blockFailedValid }

section

variable (hash256 : List UInt8 → Uint256) (verify : List UInt8 → Uint256 → List UInt8 → Bool)
  (chainparams : ChainParams) (verifyScript : ScriptVerifier) (chain : CChain)
  (txIndex : Option DiskTxIndex) (draw : Nat → Nat)
  (sort : List (Int × Uint256) → List (Int × Uint256)) (nMinimumChainWork : ArithUint256)

/-- `CChainState::AcceptBlock(pblock, state, chainparams, &pindex, fRequested, dbp,
&fNewBlock)` at adjusted time `nAdjustedTime`, with `m_chain` the active chain: the
state after the call, and `*fNewBlock` or the failure. -/
def acceptBlock (st : BlockIndexState) (block : CBlock) (fRequested : Bool)
    (nAdjustedTime : Int) : BlockIndexState × Except BlockFailure Bool :=
  let fCheckPoS := true
  let hash := block.header.getHash hash256
  match acceptBlockHeader hash256 chainparams st block.header nAdjustedTime with
  | (st, .error e) => (st, .error e)
  | (st, .ok pindex) =>
    let m := st.mBlockIndex
    let pindexPrev := prevChainOf m pindex
    -- sumcoin: we should only accept blocks that can be connected to a prev block with
    -- validated PoS
    if fCheckPoS && pindexPrev.head?.map (!·.isValid blockValidTransactions) == some true then
      (st, .error (.error "AcceptBlock: this block does not connect to any valid known block"))
    else
      let fAlreadyHave := pindex.nStatus &&& blockHaveData != 0
      if fAlreadyHave then (st, .ok false)
      else if !fRequested && skipsUnrequested chain nMinimumChainWork m pindex then
        (st, .ok false)
      else
        let checked : Except BlockFailure Unit :=
          match (checkBlock hash256 verify chainparams block true true true).1 with
          | .error e => .error e
          | .ok () => contextualCheckBlock hash256 chainparams block pindexPrev
        match checked with
        | .error e =>
          if e.marksFailed then
            ({ st with mBlockIndex := m.insert hash pindex.markFailedValid }, .error e)
          else (st, .error e)
        | .ok () =>
          -- sumcoin: check PoS
          match sumcoinContextualBlockChecksInPlace hash256 chainparams verifyScript m chain
              txIndex draw sort block pindex pindexPrev false with
          | (.error (.thrown what), _) => (st, .error (.thrown what))
          | (.error _, pindex) =>
            ({ st with mBlockIndex := m.insert hash pindex.markFailedValid },
              .error (.invalid .blockConsensus "bad-pos" "proof of stake is incorrect"))
          | (.ok (), pindex) =>
            let pindex := receivedBlockTransactions chainparams.network block pindex pindexPrev
            ({ st with mBlockIndex := m.insert hash pindex }, .ok true)

end

/-! ## What a written block has passed -/

/-- Receiving the transactions writes the count and the status word, not the flags. -/
@[simp] theorem isProofOfStake_receivedBlockTransactions (net : Network) (block : CBlock)
    (pindexNew : CBlockIndex) (pindexPrev : List CBlockIndex) :
    (receivedBlockTransactions net block pindexNew pindexPrev).isProofOfStake =
      pindexNew.isProofOfStake := by
  unfold receivedBlockTransactions CBlockIndex.raiseValidity
  split <;> rfl

section

variable {hash256 : List UInt8 → Uint256} {verify : List UInt8 → Uint256 → List UInt8 → Bool}
  {chainparams : ChainParams} {verifyScript : ScriptVerifier} {chain : CChain}
  {txIndex : Option DiskTxIndex} {draw : Nat → Nat}
  {sort : List (Int × Uint256) → List (Int × Uint256)} {nMinimumChainWork : ArithUint256}
  {st st'' : BlockIndexState} {block : CBlock} {fRequested : Bool} {nAdjustedTime : Int}

/-- A block `AcceptBlock` writes has an accepted header, has passed `CheckBlock`,
`ContextualCheckBlock` and `SumcoinContextualBlockChecks` on the entry the header
acceptance gave, and is stored as that entry with its transactions received. -/
theorem acceptBlock_eq_ok_true
    (h : acceptBlock hash256 verify chainparams verifyScript chain txIndex draw sort
      nMinimumChainWork st block fRequested nAdjustedTime = (st'', .ok true)) :
    ∃ st' pindex pindexC,
      acceptBlockHeader hash256 chainparams st block.header nAdjustedTime = (st', .ok pindex) ∧
      (checkBlock hash256 verify chainparams block true true true).1 = .ok () ∧
      contextualCheckBlock hash256 chainparams block (prevChainOf st'.mBlockIndex pindex) =
        .ok () ∧
      sumcoinContextualBlockChecksInPlace hash256 chainparams verifyScript st'.mBlockIndex chain
          txIndex draw sort block pindex (prevChainOf st'.mBlockIndex pindex) false =
        (.ok (), pindexC) ∧
      st''.mBlockIndex = st'.mBlockIndex.insert (block.header.getHash hash256)
        (receivedBlockTransactions chainparams.network block pindexC
          (prevChainOf st'.mBlockIndex pindex)) := by
  unfold acceptBlock at h
  split at h
  case h_1 => cases h
  case h_2 st' pindex hhdr =>
    dsimp only at h
    split at h
    case isTrue => cases h
    case isFalse =>
      split at h
      case isTrue => simp at h
      case isFalse =>
        split at h
        case isTrue => simp at h
        case isFalse =>
          cases hcb : (checkBlock hash256 verify chainparams block true true true).1
          case error e =>
            rw [hcb] at h
            dsimp only at h
            split at h <;> cases h
          case ok u =>
            cases u
            rw [hcb] at h
            dsimp only at h
            cases hctx : contextualCheckBlock hash256 chainparams block
              (prevChainOf st'.mBlockIndex pindex)
            case error e =>
              rw [hctx] at h
              dsimp only at h
              split at h <;> cases h
            case ok u =>
              cases u
              rw [hctx] at h
              dsimp only at h
              split at h
              case h_1 => cases h
              case h_2 => cases h
              case h_3 pindexC hc =>
                cases h
                exact ⟨st', pindex, pindexC, hhdr, rfl, hctx, hc, rfl⟩

/-- **The stored entry keeps the block type the header gave.**  The entry `AcceptBlock`
writes has the proof-of-stake flag of the entry the header acceptance returned: neither
the checks of the body nor the writes after them touch the flag. -/
theorem acceptBlock_isProofOfStake
    (h : acceptBlock hash256 verify chainparams verifyScript chain txIndex draw sort
      nMinimumChainWork st block fRequested nAdjustedTime = (st'', .ok true)) :
    ∃ st' pindex,
      acceptBlockHeader hash256 chainparams st block.header nAdjustedTime = (st', .ok pindex) ∧
      (st''.mBlockIndex (block.header.getHash hash256)).map CBlockIndex.isProofOfStake =
        some pindex.isProofOfStake := by
  obtain ⟨st', pindex, pindexC, hhdr, -, -, hc, hst⟩ := acceptBlock_eq_ok_true h
  refine ⟨st', pindex, hhdr, ?_⟩
  have hflag := sumcoinContextualBlockChecksInPlace_isProofOfStake hash256 chainparams
    verifyScript st'.mBlockIndex chain txIndex draw sort block pindex
    (prevChainOf st'.mBlockIndex pindex) false
  rw [hc] at hflag
  rw [hst, BlockMap.insert_self, Option.map_some, isProofOfStake_receivedBlockTransactions,
    hflag]

/-- For a header not indexed before, other than the genesis one, the stored entry is a
proof-of-stake entry exactly when the header's `nFlags` says so, whatever the body. -/
theorem acceptBlock_new_isProofOfStake
    (hgen : block.header.getHash hash256 ≠ chainparams.consensus.hashGenesisBlock)
    (hnew : st.mBlockIndex (block.header.getHash hash256) = none)
    (h : acceptBlock hash256 verify chainparams verifyScript chain txIndex draw sort
      nMinimumChainWork st block fRequested nAdjustedTime = (st'', .ok true)) :
    (st''.mBlockIndex (block.header.getHash hash256)).map CBlockIndex.isProofOfStake =
      some (block.header.nFlags &&& CBlockIndex.blockProofOfStake != 0) := by
  obtain ⟨st', pindex, hhdr, hflag⟩ := acceptBlock_isProofOfStake h
  obtain ⟨-, _, -, -, -, hadd⟩ := acceptBlockHeader_eq_ok_of_new hgen hnew hhdr
  obtain ⟨-, -, -, -, -, hnewflag⟩ := addToBlockIndex_of_new hnew hadd
  rw [hflag, hnewflag]

end

/-! ## A proof-of-work body under a proof-of-stake header -/

/-- `lateSpendBlock` with the header flag of a proof-of-stake block: the same hash, and
so the same proof of work, since the hash does not cover `nFlags`. -/
def stakeFlaggedLateSpendBlock : CBlock :=
  { lateSpendBlock with
    header := { lateSpendBlock.header with nFlags := CBlockIndex.blockProofOfStake } }

/-- `AcceptBlock` of the main genesis block and then of `block`, both requested, from a
node with no block, on the main network, with a block-signature check that fails, a
script verifier that passes, the genesis block as the active chain, no transaction
index, no shuffle and no minimum chain work. -/
def acceptOnGenesis (block : CBlock) : BlockIndexState × Except BlockFailure Bool :=
  let run := acceptBlock cHash256 (fun _ _ _ => false) mainParams (fun _ _ _ _ _ => .ok ())
    ⟨[mainConsensus.hashGenesisBlock]⟩ none id id BaseUint.zero
  run (run BlockIndexState.empty mainGenesis true 1700000000).1 block true 1700000000

/-- The mined proof-of-work block with a proof-of-stake header flag is written and stored
as a proof-of-stake entry, whose trust `GetBlockTrust` takes as `2^256 / (target + 1)`;
with the flag clear, the same body is stored as a proof-of-work entry of trust one. -/
theorem acceptBlock_stakeFlaggedPowBlock :
    stakeFlaggedLateSpendBlock.isProofOfStake = false ∧
      stakeFlaggedLateSpendBlock.header.getHash cHash256 = lateSpendBlock.header.getHash cHash256 ∧
      (acceptOnGenesis stakeFlaggedLateSpendBlock).2 = .ok true ∧
      ((acceptOnGenesis stakeFlaggedLateSpendBlock).1.mBlockIndex
          (lateSpendBlock.header.getHash cHash256)).map
        (fun p => (p.isProofOfStake, (getBlockTrust p).map BaseUint.toNat)) =
        some (true, .ok 16777472) ∧
      (acceptOnGenesis lateSpendBlock).2 = .ok true ∧
      ((acceptOnGenesis lateSpendBlock).1.mBlockIndex (lateSpendBlock.header.getHash cHash256)).map
        (fun p => (p.isProofOfStake, (getBlockTrust p).map BaseUint.toNat)) =
        some (false, .ok 1) := by
  decide +kernel

end Sumcoin
