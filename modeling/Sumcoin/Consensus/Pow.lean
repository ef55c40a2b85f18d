import Sumcoin.Arith.BigNum
import Sumcoin.Chain.BlockIndex

/-!
# Proof of work and the retarget: `pow.cpp`

`CheckProofOfWork` decodes `nBits` with `arith_uint256` and compares the hash with it.
`GetNextTargetRequired` retargets every block, separately for each block type: from
the last two blocks of the requested type it moves the previous target toward the
target spacing, in `CBigNum` arithmetic, and caps the result at `powLimit`.

The regtest network keeps the previous target.  The division of the retarget throws
when its divisor is zero, as `CBigNum::operator/` does; the `int64_t` division by
`nTargetSpacing` is `Int.tdiv`, which for the positive spacings of every network is
the source's truncating division.

## Main definitions

* `checkProofOfWork`, `getNextTargetRequired`.
-/

namespace Sumcoin

/-- `CheckProofOfWork(hash, nBits, params)`. -/
def checkProofOfWork (hash : Uint256) (nBits : UInt32) (params : ConsensusParams) : Bool :=
  let bnTarget := ArithUint256.setCompact nBits
  if bnTarget.fNegative || bnTarget.value.equalTo 0 ArithUint256.two_le_width || bnTarget.fOverflow ||
      bnTarget.value.gt (uintToArith256 params.powLimit) then false
  else !(uintToArith256 hash).gt bnTarget.value

/-- The retarget step of `GetNextTargetRequired`, from the target of `pindexPrev`: the
spacing it aims at and the new target, before the cap. -/
def retarget (chainparams : ChainParams) (pindexLast pindexPrev pindexPrevPrev : CBlockIndex)
    (fProofOfStake : Bool) : Except String CBigNum :=
  let params := chainparams.consensus
  let nActualSpacing := pindexPrev.getBlockTime - pindexPrevPrev.getBlockTime
  let bnNew := CBigNum.setCompact pindexPrev.nBits
  if chainparams.network != .regtest then
    let nTargetSpacing : Int :=
      if fProofOfStake then params.nStakeTargetSpacing
      else if isProtocolV09 chainparams.network pindexLast.nTime then params.nStakeTargetSpacing * 6
      else min params.nTargetSpacingWorkMax
        (params.nStakeTargetSpacing * (1 + (pindexLast.nHeight : Int) - pindexPrev.nHeight))
    let nInterval := params.nTargetTimespan.tdiv nTargetSpacing
    let bnNew := bnNew.mul
      (CBigNum.setint64 ((nInterval - 1) * nTargetSpacing + nActualSpacing + nActualSpacing))
    bnNew.div (CBigNum.setint64 ((nInterval + 1) * nTargetSpacing))
  else pure bnNew

/-- `GetNextTargetRequired(pindexLast, fProofOfStake, params)`: `powLimit` for the
genesis block, `bnInitialHashTarget` for the first two blocks of each type, and the
capped retarget after them. -/
def getNextTargetRequired (chainparams : ChainParams) (pindexLast : List CBlockIndex)
    (fProofOfStake : Bool) : Except String UInt32 :=
  let params := chainparams.consensus
  let initial := (uintToArith256 params.bnInitialHashTarget).getCompact false
  match pindexLast with
  | [] => pure ((uintToArith256 params.powLimit).getCompact false)
  | last :: lastRest =>
    match getLastBlockIndex (last :: lastRest) fProofOfStake with
    | pindexPrev :: prevPrev :: prevRest =>
      match getLastBlockIndex (prevPrev :: prevRest) fProofOfStake with
      | pindexPrevPrev :: _ :: _ => do
        let bnNew ← retarget chainparams last pindexPrev pindexPrevPrev fProofOfStake
        let bnLimit := CBigNum.setuint256 params.powLimit
        pure (if bnNew.gt bnLimit then bnLimit else bnNew).getCompact
      | _ => pure initial
    | _ => pure initial

/-- The timestamp rules `ContextualCheckBlockHeader` applies to every entry of a chain,
tip first, but the genesis entry: later than the median time past of its predecessor,
and not earlier than its predecessor by more than the future drift. -/
def timestampsOk (net : Network) : List CBlockIndex → Bool
  | b :: prev :: rest =>
    (decide (b.getBlockTime > getMedianTimePast (prev :: rest)) &&
      decide (b.getBlockTime + maxFutureDrift net b.nTime ≥ prev.getBlockTime)) &&
      timestampsOk net (prev :: rest)
  | _ => true

/-- A main-network chain, tip first: three proof-of-work entries from time 1000, then a
proof-of-stake entry at 8000 and another one an hour earlier, at 4400, still later than
the median time past under it. -/
def earlierStakeChain : List CBlockIndex :=
  [CBlockIndex.basic 4 4400 0x1d00ffff CBlockIndex.blockProofOfStake,
    CBlockIndex.basic 3 8000 0x1d00ffff CBlockIndex.blockProofOfStake,
    CBlockIndex.basic 2 1002 0x1d00ffff 0, CBlockIndex.basic 1 1001 0x1d00ffff 0,
    CBlockIndex.basic 0 1000 0x1d00ffff 0]

/-- On `earlierStakeChain`, whose timestamps keep the header rules, the proof-of-stake
retarget scales the target by `(nInterval - 1) * nTargetSpacing + 2 * nActualSpacing =
119 * 60 - 2 * 3600 < 0`: `GetNextTargetRequired` returns a compact word with the sign bit
set, which `SetCompact` reads back as negative. -/
theorem getNextTargetRequired_earlierStakeChain_negative :
    timestampsOk .main earlierStakeChain = true ∧
      getNextTargetRequired mainParams earlierStakeChain true = .ok 0x1c821d9c ∧
      (ArithUint256.setCompact 0x1c821d9c).fNegative = true :=
  ⟨by decide, by decide +kernel, by decide⟩

end Sumcoin
