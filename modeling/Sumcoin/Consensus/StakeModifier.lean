import Sumcoin.Lib.SortSpec
import Sumcoin.Lib.Ripemd160
import Sumcoin.Chain.BlockIndex

/-!
# The stake modifier: `kernel.cpp`, `chain.h`

Every block records a 64-bit stake modifier, regenerated once per modifier interval
from one entropy bit of each of 64 past blocks.  `ComputeNextStakeModifier` collects the
blocks of the last selection interval, shuffles them with `GetRand`, sorts them by
timestamp and hash with `std::sort`, and then runs 64 rounds of
`SelectBlockFromCandidates`, each over a longer prefix of time.

The model takes the random draws and the sort as parameters.  The sort is any function
meeting the postcondition of `std::sort` with the source's comparator
(`SortSpec.IsSorted candidateLess`).  That comparator is the lexicographic order of the
timestamp and the hash's value (`candidateLess_eq`), and a hash is determined by its
value, so the sorted list, and with it the new modifier, is the same for every shuffle
and every sort (`computeNextStakeModifier_shuffle_invariant`).

The comparator reads `uint256::GetDataPtr()` as eight `uint32_t` words; on the
little-endian hosts the node runs on, word `x` is `ReadLE32` at byte `4 * x`, the limb
`UintToArith256` reads.  `mapSelectedBlocks` is kept as the list of its keys, the only
thing the code asks of it.

## Main definitions

* `CBlockIndex.getStakeEntropyBit`, `CBlockIndex.generatedStakeModifier`,
  `CBlockIndex.setStakeModifier`.
* `getLastStakeModifier`, `getStakeModifierSelectionInterval`.
* `candidateLess`, `selectBlockFromCandidates`, `computeNextStakeModifier`.
* `getStakeEntropyBit`, `getStakeModifierChecksum`, `checkStakeModifierCheckpoints`.
-/

namespace Sumcoin

/-- `MODIFIER_INTERVAL_RATIO`. -/
def modifierIntervalRatio : Int := 3

namespace CBlockIndex

/-- `GetStakeEntropyBit()`: the entropy bit the entry carries. -/
def getStakeEntropyBit (b : CBlockIndex) : UInt32 := (b.nFlags &&& blockStakeEntropy) >>> 1

/-- `SetStakeEntropyBit(nEntropyBit)`: `none` for a value that is not a bit. -/
def setStakeEntropyBit (b : CBlockIndex) (nEntropyBit : UInt32) : Option CBlockIndex :=
  if nEntropyBit > 1 then none
  else some { b with nFlags := b.nFlags ||| (if nEntropyBit ≠ 0 then blockStakeEntropy else 0) }

/-- `GeneratedStakeModifier()`. -/
def generatedStakeModifier (b : CBlockIndex) : Bool := b.nFlags &&& blockStakeModifier != 0

/-- `SetStakeModifier(nModifier, fGeneratedStakeModifier)`. -/
def setStakeModifier (b : CBlockIndex) (nModifier : UInt64) (fGeneratedStakeModifier : Bool) :
    CBlockIndex :=
  { b with
    nStakeModifier := nModifier
    nFlags := if fGeneratedStakeModifier then b.nFlags ||| blockStakeModifier else b.nFlags }

/-- Flags ORed in besides `BLOCK_PROOF_OF_STAKE` leave the block type as it was. -/
theorem isProofOfStake_of_nFlags {b b' : CBlockIndex} {c : UInt32}
    (h : b'.nFlags = b.nFlags ||| c) (hc : c &&& blockProofOfStake = 0) :
    b'.isProofOfStake = b.isProofOfStake := by
  have hbit : b'.nFlags &&& blockProofOfStake = b.nFlags &&& blockProofOfStake := by
    apply UInt32.toNat_inj.mp
    have hc' := congrArg UInt32.toNat hc
    simp only [UInt32.toNat_and, UInt32.toNat_zero] at hc'
    simp only [h, UInt32.toNat_and, UInt32.toNat_or]
    rw [Nat.and_or_distrib_right, hc', Nat.or_zero]
  simp only [isProofOfStake, hbit]

theorem isProofOfStake_of_setStakeEntropyBit {b b' : CBlockIndex} {nEntropyBit : UInt32}
    (h : b.setStakeEntropyBit nEntropyBit = some b') : b'.isProofOfStake = b.isProofOfStake := by
  unfold setStakeEntropyBit at h
  split at h
  case isTrue => cases h
  case isFalse =>
    cases h
    apply isProofOfStake_of_nFlags rfl
    split <;> decide

@[simp] theorem isProofOfStake_setStakeModifier (b : CBlockIndex) (nModifier : UInt64)
    (fGenerated : Bool) : (b.setStakeModifier nModifier fGenerated).isProofOfStake = b.isProofOfStake := by
  cases fGenerated
  case false => rfl
  case true => exact isProofOfStake_of_nFlags rfl (by decide)

end CBlockIndex

/-- `GetLastStakeModifier(pindex, nStakeModifier, nModifierTime)`: back to the last entry
that generated a modifier, its modifier and time; `none` for a null pointer and when
not even the genesis entry generated one. -/
def getLastStakeModifier : List CBlockIndex → Option (UInt64 × Int)
  | [] => none
  | [pindex] =>
    if pindex.generatedStakeModifier then some (pindex.nStakeModifier, pindex.getBlockTime)
    else none
  | pindex :: prev :: rest =>
    if !pindex.generatedStakeModifier then getLastStakeModifier (prev :: rest)
    else some (pindex.nStakeModifier, pindex.getBlockTime)

/-- `GetStakeModifierSelectionIntervalSection(nSection)`, in seconds. -/
def getStakeModifierSelectionIntervalSection (params : ConsensusParams) (nSection : Nat) : Int :=
  (params.nModifierInterval * 63).tdiv (63 + (63 - (nSection : Int)) * (modifierIntervalRatio - 1))

/-- `GetStakeModifierSelectionInterval()`: the 64 sections together. -/
def getStakeModifierSelectionInterval (params : ConsensusParams) : Int :=
  ((List.range 64).map (getStakeModifierSelectionIntervalSection params)).sum

/-! ## The order of the candidates -/

/-- The comparator's loop over the words `cnt - 1` down to `0`:
`do { --cnt; if (pa[cnt] != pb[cnt]) return pa[cnt] < pb[cnt]; } while (cnt)`, and
`false` for equal elements. -/
def hashWordsLess (pa pb : Vector UInt32 8) : (cnt : Nat) → cnt ≤ 8 → Bool
  | 0, _ => false
  | cnt + 1, h =>
    if pa[cnt] ≠ pb[cnt] then decide (pa[cnt] < pb[cnt]) else hashWordsLess pa pb cnt (by omega)

/-- The comparator `ComputeNextStakeModifier` sorts its candidates with: by timestamp,
then by the words of the block hash from the most significant. -/
def candidateLess (a b : Int × Uint256) : Bool :=
  if a.1 ≠ b.1 then decide (a.1 < b.1)
  else hashWordsLess (uintToArith256 a.2).pn (uintToArith256 b.2).pn 8 le_rfl

/-- The word loop is `CompareTo`'s limb loop read as `<`. -/
theorem hashWordsLess_eq (pa pb : Vector UInt32 8) :
    ∀ cnt (h : cnt ≤ 8), hashWordsLess pa pb cnt h = decide (BaseUint.compareFrom pa pb cnt h < 0)
  | 0, _ => rfl
  | cnt + 1, h => by
    rw [hashWordsLess, BaseUint.compareFrom, hashWordsLess_eq pa pb cnt]
    by_cases hlt : pa[cnt] < pb[cnt]
    · have hne : pa[cnt] ≠ pb[cnt] := UInt32.ne_of_lt hlt
      simp [hne, hlt]
    · by_cases hgt : pa[cnt] > pb[cnt]
      · have hne : pa[cnt] ≠ pb[cnt] := (UInt32.ne_of_lt hgt).symm
        simp [hne, hlt, hgt]
      · have heq : pa[cnt] = pb[cnt] := by
          have h1 := UInt32.lt_iff_toNat_lt.not.mp hlt
          have h2 := UInt32.lt_iff_toNat_lt.not.mp hgt
          exact UInt32.toNat_inj.mp (by omega)
        simp [heq]

/-- What the comparator orders by: the timestamp, then the value of the hash. -/
def candidateKey (a : Int × Uint256) : Int ×ₗ Nat := toLex (a.1, (uintToArith256 a.2).toNat)

/-- The comparator is the lexicographic order of timestamp and hash value. -/
theorem candidateLess_eq (a b : Int × Uint256) :
    candidateLess a b = decide (candidateKey a < candidateKey b) := by
  have hwords : hashWordsLess (uintToArith256 a.2).pn (uintToArith256 b.2).pn 8 le_rfl =
      decide ((uintToArith256 a.2).toNat < (uintToArith256 b.2).toNat) := by
    rw [hashWordsLess_eq, ← BaseUint.compareTo, BaseUint.compareTo_eq]
    split_ifs <;> simp_all
  simp only [candidateLess, candidateKey, Prod.Lex.toLex_lt_toLex, hwords]
  by_cases ht : a.1 = b.1
  · simp [ht]
  · simp [ht]

theorem candidateKey_injective : Function.Injective candidateKey := by
  intro a b h
  simp only [candidateKey, toLex_inj, Prod.mk.injEq] at h
  exact Prod.ext h.1 (uintToArith256_injective h.2)

/-- Two candidates neither of which sorts before the other are one candidate: the sort
has no choice to make. -/
theorem candidateLess_trichotomous (a b : Int × Uint256) (hab : candidateLess a b = false)
    (hba : candidateLess b a = false) : a = b :=
  SortSpec.tri_of_key candidateLess_eq candidateKey_injective a b hab hba

theorem candidateLess_asymm (a b : Int × Uint256) (h : candidateLess a b = true) :
    candidateLess b a = false :=
  SortSpec.asymm_of_key candidateLess_eq a b h

theorem candidateLess_trans (a b c : Int × Uint256) (hab : candidateLess a b = true)
    (hbc : candidateLess b c = true) : candidateLess a c = true :=
  SortSpec.trans_of_key candidateLess_eq a b c hab hbc

/-! ## Selection -/

section

variable (hash256 : List UInt8 → Uint256) (m : BlockMap)

/-- The selection hash of a candidate: `Hash(hashProof, nStakeModifierPrev)`, divided by
`2^32` for a proof-of-stake block so that such a block is favoured. -/
def selectionHash (pindex : CBlockIndex) (nStakeModifierPrev : UInt64) : ArithUint256 :=
  let hashProof := if pindex.isProofOfStake then pindex.hashProofOfStake else pindex.phashBlock
  let hashSelection :=
    uintToArith256 (hash256 (Ser.uint256 hashProof ++ Ser.le 8 nStakeModifierPrev.toNat))
  if pindex.isProofOfStake then hashSelection.shiftRight 32 else hashSelection

/-- The loop of `SelectBlockFromCandidates` from the best candidate so far, `none` while
`fSelected` is false; `none` when a candidate has no index entry. -/
def selectBlockLoop (mapSelectedBlocks : List Uint256) (nSelectionIntervalStop : Int)
    (nStakeModifierPrev : UInt64) :
    List (Int × Uint256) → Option (ArithUint256 × CBlockIndex) →
      Option (Option (ArithUint256 × CBlockIndex))
  | [], best => some best
  | item :: rest, best =>
    match m item.2 with
    | none => none
    | some pindex =>
      if best.isSome && decide (pindex.getBlockTime > nSelectionIntervalStop) then some best
      else if pindex.phashBlock ∈ mapSelectedBlocks then
        selectBlockLoop mapSelectedBlocks nSelectionIntervalStop nStakeModifierPrev rest best
      else
        let hashSelection := selectionHash hash256 pindex nStakeModifierPrev
        match best with
        | some (hashBest, _) =>
          selectBlockLoop mapSelectedBlocks nSelectionIntervalStop nStakeModifierPrev rest
            (if hashSelection.lt hashBest then some (hashSelection, pindex) else best)
        | none =>
          selectBlockLoop mapSelectedBlocks nSelectionIntervalStop nStakeModifierPrev rest
            (some (hashSelection, pindex))

/-- `SelectBlockFromCandidates(vSortedByTimestamp, mapSelectedBlocks,
nSelectionIntervalStop, nStakeModifierPrev, pindexSelected)`: the selected entry, or
`none` when the source returns `false`. -/
def selectBlockFromCandidates (vSortedByTimestamp : List (Int × Uint256))
    (mapSelectedBlocks : List Uint256) (nSelectionIntervalStop : Int)
    (nStakeModifierPrev : UInt64) : Option CBlockIndex :=
  (selectBlockLoop hash256 m mapSelectedBlocks nSelectionIntervalStop nStakeModifierPrev
    vSortedByTimestamp none).bind fun best => best.map (·.2)

/-- Round `nRound` of `ComputeNextStakeModifier`, from the stop time, the selected
blocks and the new modifier so far: one more section of time, one more block, one more
bit. -/
def selectionRound (params : ConsensusParams) (vSortedByTimestamp : List (Int × Uint256))
    (nStakeModifier : UInt64) (acc : Int × List Uint256 × UInt64) (nRound : Nat) :
    Option (Int × List Uint256 × UInt64) := do
  let (nSelectionIntervalStop, mapSelectedBlocks, nStakeModifierNew) := acc
  let nSelectionIntervalStop :=
    nSelectionIntervalStop + getStakeModifierSelectionIntervalSection params nRound
  let pindex ← selectBlockFromCandidates hash256 m vSortedByTimestamp mapSelectedBlocks
    nSelectionIntervalStop nStakeModifier
  pure (nSelectionIntervalStop, pindex.phashBlock :: mapSelectedBlocks,
    nStakeModifierNew ||| (pindex.getStakeEntropyBit.toUInt64 <<< nRound.toUInt64))

/-- The candidates: the time and hash of `pindexPrev` and of each ancestor back to the
first one older than `nSelectionIntervalStart`. -/
def stakeModifierCandidates (pindexPrev : List CBlockIndex) (nSelectionIntervalStart : Int) :
    List (Int × Uint256) :=
  (pindexPrev.takeWhile fun p => decide (p.getBlockTime ≥ nSelectionIntervalStart)).map
    fun p => (p.getBlockTime, p.phashBlock)

/-- `ComputeNextStakeModifier(pindexCurrent, nStakeModifier, fGeneratedStakeModifier)`
with the draws of `GetRand` and the result of `std::sort`: the modifier and whether it
is new, or `none` when the source returns `false` (its caller then reads neither). -/
def computeNextStakeModifier (chainparams : ChainParams) (draw : Nat → Nat)
    (sort : List (Int × Uint256) → List (Int × Uint256)) :
    List CBlockIndex → Option (UInt64 × Bool)
  -- `pindexCurrent` is never null
  | [] => none
  -- genesis block's modifier is 0
  | [_] => some (0, true)
  | pindexCurrent :: pindexPrev :: rest => do
    let params := chainparams.consensus
    let (nStakeModifier, nModifierTime) ← getLastStakeModifier (pindexPrev :: rest)
    let nModifierEpoch := nModifierTime.tdiv params.nModifierInterval
    if nModifierEpoch ≥ pindexPrev.getBlockTime.tdiv params.nModifierInterval then
      pure (nStakeModifier, false)
    -- v0.4+ requires current block timestamp also be in a different modifier interval
    else if nModifierEpoch ≥ pindexCurrent.getBlockTime.tdiv params.nModifierInterval ∧
        isProtocolV04 chainparams.network pindexCurrent.nTime then
      pure (nStakeModifier, false)
    else
      let nSelectionIntervalStart :=
        pindexPrev.getBlockTime.tdiv params.nModifierInterval * params.nModifierInterval -
          getStakeModifierSelectionInterval params
      let vSortedByTimestamp :=
        sort (SortSpec.shuffle draw (stakeModifierCandidates (pindexPrev :: rest)
          nSelectionIntervalStart))
      let (_, _, nStakeModifierNew) ←
        (List.range (min 64 vSortedByTimestamp.length)).foldlM
          (selectionRound hash256 m params vSortedByTimestamp nStakeModifier)
          (nSelectionIntervalStart, [], 0)
      pure (nStakeModifierNew, true)

/-- Whatever the draws of the shuffle and whatever sort meeting `std::sort`'s
postcondition is used, `ComputeNextStakeModifier` computes one result. -/
theorem computeNextStakeModifier_shuffle_invariant (chainparams : ChainParams)
    {sort₁ sort₂ : List (Int × Uint256) → List (Int × Uint256)}
    (hsort₁ : ∀ l, SortSpec.IsSorted candidateLess l (sort₁ l))
    (hsort₂ : ∀ l, SortSpec.IsSorted candidateLess l (sort₂ l)) (draw₁ draw₂ : Nat → Nat)
    (pindexCurrent : List CBlockIndex) :
    computeNextStakeModifier hash256 m chainparams draw₁ sort₁ pindexCurrent =
      computeNextStakeModifier hash256 m chainparams draw₂ sort₂ pindexCurrent := by
  -- the draws and the sort enter only through the sorted candidates
  have hsorted : ∀ l, sort₁ (SortSpec.shuffle draw₁ l) = sort₂ (SortSpec.shuffle draw₂ l) :=
    SortSpec.sort_shuffle_eq candidateLess_trichotomous hsort₁ hsort₂ draw₁ draw₂
  match pindexCurrent with
  | [] => rfl
  | [_] => rfl
  | _ :: _ :: _ => simp only [computeNextStakeModifier, hsorted]

/-! ## The entropy bit and the checksum -/

/-- `Hash160`: RIPEMD-160 of SHA-256. -/
def cHash160 (b : List UInt8) : List UInt8 := Ripemd160.ripemd160 (Sha256.sha256 b)

/-- `GetStakeEntropyBit(block)`: from v0.4 on the last bit of the block hash; before it
the top bit of word 4 of `Hash160(vchBlockSig)`. -/
def getStakeEntropyBit (net : Network) (block : CBlock) : UInt32 :=
  if isProtocolV04 net block.header.nTime then
    ((uintToArith256 (block.header.getHash hash256)).getLow64 ArithUint256.two_le_width &&& 1).toUInt32
  else
    let hashSig := cHash160 block.vchBlockSig
    (Ripemd160.wordsLE hashSig).getD 4 0 >>> 31

/-- The assertion that opens `GetStakeModifierChecksum`. -/
def stakeModifierChecksumAssertion : String :=
  "assert(pindex->pprev || pindex->GetBlockHash() == Params().GetConsensus().hashGenesisBlock)"

/-- `GetStakeModifierChecksum(pindex)`, for the network whose genesis hash is
`hashGenesisBlock`: an entry without a predecessor must be its genesis block; the result is
the top 32 bits of the hash of the predecessor's checksum, the flags, `hashProofOfStake` and
the modifier. -/
def getStakeModifierChecksum (hashGenesisBlock : Uint256) (pindex : CBlockIndex)
    (pindexPrev : List CBlockIndex) : Except String UInt32 := do
  if pindexPrev.isEmpty && pindex.phashBlock != hashGenesisBlock then
    throw stakeModifierChecksumAssertion
  let ss :=
    (match pindexPrev with
      | prev :: _ => Ser.le 4 prev.nStakeModifierChecksum.toNat
      | [] => []) ++
    Ser.le 4 pindex.nFlags.toNat ++ Ser.uint256 pindex.hashProofOfStake ++
      Ser.le 8 pindex.nStakeModifier.toNat
  let hashChecksum := (uintToArith256 (hash256 ss)).shiftRight (256 - 32)
  pure (hashChecksum.getLow64 ArithUint256.two_le_width).toUInt32

/-- `mapStakeModifierTestnetCheckpoints`, in the order of its initializer.  A `std::map`
built from a range keeps the first of two pairs with one key, so `lookup` finds the
first. -/
def stakeModifierTestnetCheckpoints : List (Int × UInt32) := [(0, 0), (0, 0x0e00670b)]

/-- `CheckStakeModifierCheckpoints(nHeight, nStakeModifierChecksum)`: only the testnet
compares; the main network's comparison is commented out. -/
def checkStakeModifierCheckpoints (net : Network) (nHeight : Int)
    (nStakeModifierChecksum : UInt32) : Bool :=
  match (if net = .testnet then stakeModifierTestnetCheckpoints.lookup nHeight else none) with
  | some nCheckpoint => nStakeModifierChecksum == nCheckpoint
  | none => true

/-! ## A run -/

/-- A genesis entry that generated the zero modifier and two entries after it, each in a
later modifier interval, stored under the hashes 1, 2 and 3; entry 2 carries the
entropy bit. -/
def stakeModifierChain : List CBlockIndex :=
  let entry (k : Nat) (prev : Option Uint256) (nHeight : Nat) (nTime nFlags : UInt32) :
      CBlockIndex :=
    { CBlockIndex.ofHeader (.ofNat k) mainGenesis.header with
      pprev := prev, nHeight := nHeight, nTime := nTime, nFlags := nFlags }
  [entry 3 (some (.ofNat 2)) 2 (mainGenesis.header.nTime + 800) 0,
    entry 2 (some (.ofNat 1)) 1 (mainGenesis.header.nTime + 400) CBlockIndex.blockStakeEntropy,
    entry 1 none 0 mainGenesis.header.nTime CBlockIndex.blockStakeModifier]

/-- The block index holding `stakeModifierChain`. -/
def stakeModifierChainIndex : BlockMap := fun hash => stakeModifierChain.find? (·.phashBlock == hash)

/-- The candidates are the genesis entry and entry 2.  Round 0 closes before entry 2's
time and takes the genesis entry; round 1 skips it and takes entry 2, whose bit is bit 1
of the new modifier. -/
example : computeNextStakeModifier cHash256 stakeModifierChainIndex mainParams (fun _ => 0)
    (List.insertionSort fun a b => candidateLess b a = false) stakeModifierChain =
      some (2, true) := by
  decide +kernel

theorem computeNextStakeModifier_shuffle_invariant_insertionSort :
    (∀ l, SortSpec.IsSorted candidateLess l (l.insertionSort fun a b => candidateLess b a = false)) ∧
      computeNextStakeModifier cHash256 stakeModifierChainIndex mainParams (fun _ => 0)
          (List.insertionSort fun a b => candidateLess b a = false) stakeModifierChain =
        computeNextStakeModifier cHash256 stakeModifierChainIndex mainParams (fun i => i - 1)
          (List.insertionSort fun a b => candidateLess b a = false) stakeModifierChain :=
  have hsort := SortSpec.isSorted_insertionSort candidateLess_trichotomous candidateLess_asymm
    candidateLess_trans
  ⟨hsort, computeNextStakeModifier_shuffle_invariant cHash256 stakeModifierChainIndex mainParams
    hsort hsort (fun _ => 0) (fun i => i - 1) stakeModifierChain⟩

end

end Sumcoin
