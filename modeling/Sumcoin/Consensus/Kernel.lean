import Sumcoin.Script.Interpreter
import Sumcoin.Consensus.StakeModifier
import Sumcoin.Validation.TxInputs

/-!
# The stake kernel: `CheckStakeKernelHash`, `CheckProofOfStake` (`kernel.cpp`)

A coinstake proves its stake with its first input: the hash of the stake modifier,
the time and offset of the spent transaction, its output index and the coinstake's
time must not exceed the target per coin-day times the coin-days of the spent output.

The stake modifier the kernel hashes depends on the protocol.  From v0.5 it is the
modifier of the last entry, back from `pindexPrev`, that generated one before
`nStakeMinAge` less a selection interval ago (`getKernelStakeModifierV05`).  Before,
it is the first modifier generated a selection interval after the spent coin's block,
found by walking forward through the active chain and through a temporary chain of the
entries of `pindexPrev`'s branch that are off it (`getKernelStakeModifierV03`).  The
forward walk moves one height per step along the active chain and takes each entry of
the temporary chain at most once, so `(tmpChain.length + 1) * (chain.length + 1) + 1`
steps exceed any walk the source makes.

`CheckProofOfStake` reads the spent transaction through the transaction index, with
the offset of the transaction after its block header (`CDiskTxPos::nTxOffset`), and
runs the script interpreter on the kernel input, which the model takes as a parameter
(`ScriptVerifier`).  A failure that the source reports with `error(...)` only logs and
leaves the validation state as it was; the model keeps its text.

## Main definitions

* `DiskTxIndex`.
* `getKernelStakeModifierV05`, `getKernelStakeModifierV05Full`, `getKernelStakeModifierV03`,
  `getKernelStakeModifier`.

## Main statements

* `getKernelStakeModifierV05Full_eq`: the v0.5 walk returns the nearest ancestor that may
  give the modifier, and fails exactly when there is none.
* `checkStakeKernelHash`, `checkProofOfStake`.
-/

namespace Sumcoin

/-- The transaction index as `CheckProofOfStake` reads it: for a txid, the header of the
block holding the transaction, the offset of the transaction after that header, and the
transaction as read from the block file. -/
def DiskTxIndex := Uint256 → Option (CBlockHeader × Nat × CTransaction)

/-- The same index as `GetCoinAge` reads it, without the offsets. -/
def DiskTxIndex.toTxIndex (txIndex : DiskTxIndex) : TxIndex :=
  fun hash => (txIndex hash).map fun (header, _, txPrev) => (header, txPrev)

section

variable (params : ConsensusParams)

/-! ## The modifier the kernel hashes -/

/-- The loop of `GetKernelStakeModifierV05` from `pindex`, with the time of the last
modifier generated on the way: back while that time is within `nStakeMinAge` less the
selection interval of `nTimeTx`. -/
def kernelModifierV05Loop (nStakeModifierSelectionInterval : Int) (nTimeTx : UInt32) :
    List CBlockIndex → Int → Option UInt64
  | [], _ => none
  | pindex :: rest, nStakeModifierTime =>
    if nStakeModifierTime + params.nStakeMinAge - nStakeModifierSelectionInterval >
        nTimeTx.toNat then
      match rest with
      -- reached genesis block; should not happen
      | [] => none
      | prev :: _ =>
        kernelModifierV05Loop nStakeModifierSelectionInterval nTimeTx rest
          (if prev.generatedStakeModifier then prev.getBlockTime else nStakeModifierTime)
    else some pindex.nStakeModifier

/-- `GetKernelStakeModifierV05(pindexPrev, nTimeTx, ...)`: `none` when the source returns
`false`, first when the best block is too old for a stake at `nTimeTx`. -/
def getKernelStakeModifierV05 (pindexPrev : List CBlockIndex) (nTimeTx : UInt32) :
    Option UInt64 :=
  match pindexPrev with
  | [] => none
  | pindex :: _ =>
    let nStakeModifierSelectionInterval := getStakeModifierSelectionInterval params
    let nStakeModifierTime := pindex.getBlockTime
    if nStakeModifierTime + params.nStakeMinAge - nStakeModifierSelectionInterval ≤
        nTimeTx.toNat then none
    else kernelModifierV05Loop params nStakeModifierSelectionInterval nTimeTx pindexPrev
      nStakeModifierTime

/-- The loop of `GetKernelStakeModifierV05` with every output the source writes: the
modifier of the entry it stops at, and `nStakeModifierHeight` and `nStakeModifierTime`,
which follow the last entry on the way that generated a modifier. -/
def kernelModifierV05Walk (nStakeModifierSelectionInterval : Int) (nTimeTx : UInt32) :
    List CBlockIndex → Nat → Int → Option (UInt64 × Nat × Int)
  | [], _, _ => none
  | pindex :: rest, nStakeModifierHeight, nStakeModifierTime =>
    if nStakeModifierTime + params.nStakeMinAge - nStakeModifierSelectionInterval >
        nTimeTx.toNat then
      match rest with
      | [] => none
      | prev :: _ =>
        if prev.generatedStakeModifier then
          kernelModifierV05Walk nStakeModifierSelectionInterval nTimeTx rest prev.nHeight
            prev.getBlockTime
        else
          kernelModifierV05Walk nStakeModifierSelectionInterval nTimeTx rest nStakeModifierHeight
            nStakeModifierTime
    else some (pindex.nStakeModifier, nStakeModifierHeight, nStakeModifierTime)

/-- `GetKernelStakeModifierV05` with its outputs `nStakeModifier`, `nStakeModifierHeight`
and `nStakeModifierTime`. -/
def getKernelStakeModifierV05Full (pindexPrev : List CBlockIndex) (nTimeTx : UInt32) :
    Option (UInt64 × Nat × Int) :=
  match pindexPrev with
  | [] => none
  | pindex :: _ =>
    let nStakeModifierSelectionInterval := getStakeModifierSelectionInterval params
    if pindex.getBlockTime + params.nStakeMinAge - nStakeModifierSelectionInterval ≤
        nTimeTx.toNat then none
    else kernelModifierV05Walk params nStakeModifierSelectionInterval nTimeTx pindexPrev
      pindex.nHeight pindex.getBlockTime

/-- An entry the v0.5 modifier of a stake at `nTimeTx` may come from: one that generated
a modifier at least `nStakeMinAge` less the selection interval before `nTimeTx`. -/
def kernelModifierSource (nStakeModifierSelectionInterval : Int) (nTimeTx : UInt32)
    (b : CBlockIndex) : Bool :=
  b.generatedStakeModifier &&
    decide (b.getBlockTime + params.nStakeMinAge - nStakeModifierSelectionInterval ≤ nTimeTx.toNat)

/-- What the walk reports of the entry it stops at. -/
def kernelModifierOut (b : CBlockIndex) : UInt64 × Nat × Int :=
  (b.nStakeModifier, b.nHeight, b.getBlockTime)

/-- From an entry whose tracked time is still too recent, the walk stops at the nearest
entry behind it that may give the modifier, and fails when none does.  By induction on
the entries behind it. -/
theorem kernelModifierV05Walk_eq_find? (SI : Int) (nTimeTx : UInt32) :
    ∀ (rest : List CBlockIndex) (pindex : CBlockIndex) (h : Nat) (t : Int),
      t + params.nStakeMinAge - SI > nTimeTx.toNat →
      kernelModifierV05Walk params SI nTimeTx (pindex :: rest) h t =
        (rest.find? (kernelModifierSource params SI nTimeTx)).map kernelModifierOut
  | [], pindex, h, t, ht => by
    rw [kernelModifierV05Walk, if_pos ht]
    rfl
  | prev :: rest, pindex, h, t, ht => by
    rw [kernelModifierV05Walk, if_pos ht]
    by_cases hgen : prev.generatedStakeModifier = true
    · rw [if_pos hgen]
      by_cases htime : prev.getBlockTime + params.nStakeMinAge - SI ≤ nTimeTx.toNat
      · -- `prev` generated a modifier early enough: the loop stops there
        have hsrc : kernelModifierSource params SI nTimeTx prev = true := by
          simp [kernelModifierSource, hgen, htime]
        rw [List.find?_cons_of_pos hsrc, kernelModifierV05Walk.eq_def]
        dsimp only
        rw [if_neg (by omega)]
        rfl
      · have hsrc : kernelModifierSource params SI nTimeTx prev = false := by
          simp [kernelModifierSource, htime]
        rw [List.find?_cons_of_neg (by simp [hsrc]),
          kernelModifierV05Walk_eq_find? SI nTimeTx rest prev _ _ (by omega)]
    · rw [if_neg hgen]
      have hsrc : kernelModifierSource params SI nTimeTx prev = false := by
        simp [kernelModifierSource, hgen]
      rw [List.find?_cons_of_neg (by simp [hsrc]), kernelModifierV05Walk_eq_find? SI nTimeTx rest prev h t ht]

/-- The loop without the height and time is the walk's first output. -/
theorem kernelModifierV05Loop_eq_walk (SI : Int) (nTimeTx : UInt32) :
    ∀ (l : List CBlockIndex) (h : Nat) (t : Int),
      kernelModifierV05Loop params SI nTimeTx l t =
        (kernelModifierV05Walk params SI nTimeTx l h t).map (·.1)
  | [], _, _ => rfl
  | [pindex], h, t => by
    rw [kernelModifierV05Loop, kernelModifierV05Walk]
    split_ifs <;> rfl
  | pindex :: prev :: rest, h, t => by
    rw [kernelModifierV05Loop, kernelModifierV05Walk]
    split_ifs with ht hgen
    · exact kernelModifierV05Loop_eq_walk SI nTimeTx (prev :: rest) _ _
    · exact kernelModifierV05Loop_eq_walk SI nTimeTx (prev :: rest) _ _
    · rfl

/-- `GetKernelStakeModifierV05` after a best block recent enough for the stake: it
returns the modifier, height and time of the nearest strict ancestor that generated a
modifier at least `nStakeMinAge` less the selection interval before `nTimeTx`, and fails
exactly when there is none; the modifier the kernel check hashes is that one. -/
theorem getKernelStakeModifierV05Full_eq (pindex : CBlockIndex) (ancestors : List CBlockIndex)
    (nTimeTx : UInt32)
    (hstart : pindex.getBlockTime + params.nStakeMinAge - getStakeModifierSelectionInterval params >
      nTimeTx.toNat) :
    getKernelStakeModifierV05Full params (pindex :: ancestors) nTimeTx =
        (ancestors.find? (kernelModifierSource params (getStakeModifierSelectionInterval params)
          nTimeTx)).map kernelModifierOut ∧
      getKernelStakeModifierV05 params (pindex :: ancestors) nTimeTx =
        (ancestors.find? (kernelModifierSource params (getStakeModifierSelectionInterval params)
          nTimeTx)).map CBlockIndex.nStakeModifier := by
  have hwalk := kernelModifierV05Walk_eq_find? params (getStakeModifierSelectionInterval params)
    nTimeTx ancestors pindex pindex.nHeight pindex.getBlockTime hstart
  refine ⟨?_, ?_⟩
  · rw [getKernelStakeModifierV05Full, if_neg (by omega), hwalk]
  · rw [getKernelStakeModifierV05, if_neg (by omega),
      kernelModifierV05Loop_eq_walk params _ nTimeTx _ pindex.nHeight, hwalk, Option.map_map]
    rfl

/-- A best block a year after a genesis entry that generated a modifier: the walk
returns the genesis entry's. -/
theorem getKernelStakeModifierV05Full_eq_yearOld :
    (CBlockIndex.basic 1 31536000 0 0).getBlockTime + mainConsensus.nStakeMinAge -
        getStakeModifierSelectionInterval mainConsensus > (100000 : UInt32).toNat ∧
      getKernelStakeModifierV05Full mainConsensus
          [CBlockIndex.basic 1 31536000 0 0, CBlockIndex.basic 0 0 0 CBlockIndex.blockStakeModifier]
          100000 =
        ([CBlockIndex.basic 0 0 0 CBlockIndex.blockStakeModifier].find?
          (kernelModifierSource mainConsensus (getStakeModifierSelectionInterval mainConsensus)
            100000)).map kernelModifierOut ∧
      getKernelStakeModifierV05 mainConsensus
          [CBlockIndex.basic 1 31536000 0 0, CBlockIndex.basic 0 0 0 CBlockIndex.blockStakeModifier]
          100000 =
        ([CBlockIndex.basic 0 0 0 CBlockIndex.blockStakeModifier].find?
          (kernelModifierSource mainConsensus (getStakeModifierSelectionInterval mainConsensus)
            100000)).map CBlockIndex.nStakeModifier :=
  have hstart : (CBlockIndex.basic 1 31536000 0 0).getBlockTime + mainConsensus.nStakeMinAge -
      getStakeModifierSelectionInterval mainConsensus > (100000 : UInt32).toNat := by decide
  ⟨hstart, getKernelStakeModifierV05Full_eq mainConsensus _ _ 100000 hstart⟩

/-- The temporary chain of `GetKernelStakeModifierV03`, newest first: up to `nDepth`
entries back from `pindexPrev` while they are off the active chain. -/
def kernelTmpChain (chain : CChain) : Nat → List CBlockIndex → List CBlockIndex
  | 0, _ => []
  | _ + 1, [] => []
  | nDepth + 1, it :: rest =>
    if chain.contains it then [] else it :: kernelTmpChain chain nDepth rest

/-- The forward loop of `GetKernelStakeModifierV03` from `pindex`, with the next index
`n` into `tmpChain` and the time of the last modifier generated: forward while that time
is before `nStakeModifierStop`. -/
def kernelModifierV03Loop (chain : CChain) (m : BlockMap) (tmpChain : List CBlockIndex)
    (nStakeModifierStop : Int) :
    (fuel : Nat) → (pindex : CBlockIndex) → (n : Nat) → (nStakeModifierTime : Int) →
      Option UInt64
  | 0, _, _, _ => none
  | fuel + 1, pindex, n, nStakeModifierTime =>
    if nStakeModifierTime < nStakeModifierStop then
      -- from the first height of the temporary chain on, its entries in turn
      let (pnext, n') : Option CBlockIndex × Nat :=
        match tmpChain with
        | first :: _ =>
          if (pindex.nHeight : Int) ≥ (first.nHeight : Int) - 1 then (tmpChain[n]?, n + 1)
          else (chain.next m pindex, n)
        | [] => (chain.next m pindex, n)
      if n' > tmpChain.length then none
      else
        match pnext with
        -- reached best block; may happen if node is behind on block chain
        | none => none
        | some p =>
          kernelModifierV03Loop chain m tmpChain nStakeModifierStop fuel p n'
            (if p.generatedStakeModifier then p.getBlockTime else nStakeModifierTime)
    else some pindex.nStakeModifier

/-- `GetKernelStakeModifierV03(pindexPrev, hashBlockFrom, ...)`: `none` when the source
returns `false`. -/
def getKernelStakeModifierV03 (m : BlockMap) (chain : CChain) (pindexPrev : List CBlockIndex)
    (hashBlockFrom : Uint256) : Option UInt64 :=
  match m hashBlockFrom, pindexPrev with
  -- block not indexed
  | none, _ => none
  | some _, [] => none
  | some pindexFrom, prev :: _ =>
    let nStakeModifierSelectionInterval := getStakeModifierSelectionInterval params
    let nDepth := (prev.nHeight : Int) - ((pindexFrom.nHeight : Int) - 1)
    let tmpChain := (kernelTmpChain chain nDepth.toNat pindexPrev).reverse
    kernelModifierV03Loop chain m tmpChain
      (pindexFrom.getBlockTime + nStakeModifierSelectionInterval)
      ((tmpChain.length + 1) * (chain.vChain.length + 1) + 1) pindexFrom 0
      pindexFrom.getBlockTime

end

/-- `GetKernelStakeModifier(pindexPrev, hashBlockFrom, nTimeTx, ...)`. -/
def getKernelStakeModifier (chainparams : ChainParams) (m : BlockMap) (chain : CChain)
    (pindexPrev : List CBlockIndex) (hashBlockFrom : Uint256) (nTimeTx : UInt32) :
    Option UInt64 :=
  if isProtocolV05 chainparams.network nTimeTx then
    getKernelStakeModifierV05 chainparams.consensus pindexPrev nTimeTx
  else getKernelStakeModifierV03 chainparams.consensus m chain pindexPrev hashBlockFrom

/-! ## The kernel -/

section

variable (hash256 : List UInt8 → Uint256) (chainparams : ChainParams) (m : BlockMap)
  (chain : CChain)

/-- `CheckStakeKernelHash(nBits, pindexPrev, blockFrom, nTxPrevOffset, txPrev, prevout,
nTimeTx, hashProofOfStake, ...)`: whether the kernel meets its target, and
`hashProofOfStake` as the call leaves it.  The error is the exception of a `CBigNum`
division, whose divisors here are never zero. -/
def checkStakeKernelHash (nBits : UInt32) (pindexPrev : List CBlockIndex)
    (blockFrom : CBlockHeader) (nTxPrevOffset : UInt32) (txPrev : CTransaction)
    (prevout : COutPoint) (nTimeTx : UInt32) (hashProofOfStake : Uint256) :
    Except String (Bool × Uint256) :=
  let params := chainparams.consensus
  let net := chainparams.network
  let nTimeBlockFrom := blockFrom.nTime
  let nTimeTxPrev := if txPrev.nTime ≠ 0 then txPrev.nTime else nTimeBlockFrom
  -- Transaction timestamp violation
  if nTimeTx < nTimeTxPrev then pure (false, hashProofOfStake)
  -- Min age requirement
  else if (nTimeBlockFrom.toNat : Int) + params.nStakeMinAge > nTimeTx.toNat then
    pure (false, hashProofOfStake)
  else do
    let bnTargetPerCoinDay := CBigNum.setCompact nBits
    let nValueIn := (txPrev.vout.getD prevout.n.toNat ⟨-1, []⟩).nValue
    let nTimeWeight : Int :=
      min ((nTimeTx.toNat : Int) - nTimeTxPrev.toNat) params.nStakeMaxAge -
        (if isProtocolV03 net nTimeTx then params.nStakeMinAge else 0)
    let bnCoinDayWeight ← ((CBigNum.setint64 nValueIn).mul (CBigNum.setint64 nTimeWeight)).div
      (CBigNum.setint64 coin)
    let bnCoinDayWeight ← bnCoinDayWeight.div (CBigNum.setint64 (24 * 60 * 60))
    -- v0.3 hashes the stake modifier, v0.2 the difficulty bits
    let ssModifier : Option (List UInt8) :=
      if isProtocolV03 net nTimeTx then
        (getKernelStakeModifier chainparams m chain pindexPrev (blockFrom.getHash hash256)
          nTimeTx).map fun nStakeModifier => Ser.le 8 nStakeModifier.toNat
      else some (Ser.le 4 nBits.toNat)
    match ssModifier with
    | none => pure (false, hashProofOfStake)
    | some ssModifier =>
      let ss := ssModifier ++ Ser.le 4 nTimeBlockFrom.toNat ++ Ser.le 4 nTxPrevOffset.toNat ++
        Ser.le 4 nTimeTxPrev.toNat ++ Ser.le 4 prevout.n.toNat ++ Ser.le 4 nTimeTx.toNat
      let hashProofOfStake := hash256 ss
      pure (!(CBigNum.setuint256 hashProofOfStake).gt (bnCoinDayWeight.mul bnTargetPerCoinDay),
        hashProofOfStake)

/-- `CheckProofOfStake(state, pindexPrev, tx, nBits, hashProofOfStake, nTimeTx)`: the
proof-of-stake hash of the kernel, or how the check fails. -/
def checkProofOfStake (verifyScript : ScriptVerifier) (txIndex : Option DiskTxIndex)
    (pindexPrev : List CBlockIndex) (tx : CTransaction) (nBits nTimeTx : UInt32) :
    Except BlockFailure Uint256 := do
  let txHex := (tx.getHash hash256).getHex
  if !tx.isCoinStake then
    throw (.error ("CheckProofOfStake() : called on non-coinstake " ++ txHex))
  -- Kernel (input 0) must match the stake hash target per coin age (nBits)
  let txin := tx.vin.headD ⟨COutPoint.null, [], 0, ⟨[]⟩⟩
  match txIndex with
  | none => throw (.error "CheckProofOfStake() : transaction index not available")
  | some txIndex =>
    match txIndex txin.prevout.hash with
    | none => throw (.error "CheckProofOfStake() : tx index not found")
    | some (header, nTxOffset, txPrev) =>
      if txPrev.getHash hash256 ≠ txin.prevout.hash then
        throw (.error "CheckProofOfStake() : txid mismatch in CheckProofOfStake()")
      let prevOut := txPrev.vout.getD txin.prevout.n.toNat ⟨-1, []⟩
      if !(verifyScript tx 0 prevOut.nValue prevOut.scriptPubKey scriptVerifyP2SH).isOk then
        throw (.invalid .blockConsensus "invalid-pos-script"
          ("CheckProofOfStake: VerifyScript failed on coinstake " ++ txHex))
      match checkStakeKernelHash hash256 chainparams m chain nBits pindexPrev header
          (nTxOffset + 80).toUInt32 txPrev txin.prevout nTimeTx Uint256.zero with
      | .error what => throw (.thrown what)
      | .ok (false, hashProof) =>
        throw (.invalid .blockConsensus "check-kernel-failed"
          ("CheckProofOfStake() : INFO: check kernel failed on coinstake " ++ txHex ++
            ", hashProof=" ++ hashProof.getHex))
      | .ok (true, hashProof) => pure hashProof

end

end Sumcoin
