import Sumcoin.Consensus.TxCheck

/-!
# The block index: `chain.h`, `chain.cpp` and the walks of `kernel.cpp`

`BlockManager::m_block_index` maps block hashes to `CBlockIndex` objects that point at
their predecessors.  The model keeps the map as a function from hashes to entries, and
a `pprev` pointer as the hash of the predecessor, so that an entry updated in the map
is seen through every pointer to it, as in the source.

The code walks `pindex = pindex->pprev`.  A pointer the walks follow is the list of
the block and its ancestors, newest first (`chainOf`): `pindex->pprev` is then the
list's tail, and every walk is a structural recursion on that list.  `chainOf` takes
`nHeight` steps, which reach the genesis block in a well-formed map, where each
entry's predecessor is present one height lower (`BlockMap.WellFormed`,
`chainOf_of_pprev`).

`GetAncestor` is modelled by its result, the ancestor at the requested height; the
skip pointers `pskip` that make it fast do not change what it returns.

## Main definitions

* `CBlockIndex`, `BlockMap`, `chainOf`, `CChain`.
* `getLastBlockIndex`, `getMedianTimePast`, `getAncestor`, `isSuperMajority`,
  `isProtocolV06`, `getBlockTrust`.
-/

namespace Sumcoin

/-! ## Block status -/

/-- `BLOCK_VALID_TREE`. -/
def blockValidTree : UInt32 := 2
/-- `BLOCK_VALID_TRANSACTIONS`. -/
def blockValidTransactions : UInt32 := 3
/-- `BLOCK_VALID_SCRIPTS`. -/
def blockValidScripts : UInt32 := 5
/-- `BLOCK_VALID_MASK`: `RESERVED | TREE | TRANSACTIONS | CHAIN | SCRIPTS`. -/
def blockValidMask : UInt32 := 1 ||| 2 ||| 3 ||| 4 ||| 5
/-- `BLOCK_HAVE_DATA`. -/
def blockHaveData : UInt32 := 8
/-- `BLOCK_FAILED_VALID`. -/
def blockFailedValid : UInt32 := 32
/-- `BLOCK_FAILED_CHILD`. -/
def blockFailedChild : UInt32 := 64
/-- `BLOCK_FAILED_MASK`. -/
def blockFailedMask : UInt32 := blockFailedValid ||| blockFailedChild

/-! ## Entries -/

/-- `CBlockIndex`: the fields the modelled code reads or writes.  `phashBlock` is the
key the entry is stored under; `pprev` is the key of the predecessor. -/
structure CBlockIndex where
  phashBlock : Uint256
  pprev : Option Uint256
  nHeight : Nat
  nChainTrust : ArithUint256
  nTx : Nat
  nStatus : UInt32
  nVersion : Int32
  hashMerkleRoot : Uint256
  nTime : UInt32
  nBits : UInt32
  nNonce : UInt32
  nSequenceId : Int
  nTimeMax : UInt32
  nMint : CAmount
  nMoneySupply : CAmount
  nFlags : UInt32
  nStakeModifier : UInt64
  nStakeModifierChecksum : UInt32
  prevoutStake : COutPoint
  nStakeTime : UInt32
  hashProofOfStake : Uint256
  deriving DecidableEq, Repr

namespace CBlockIndex

/-- `BLOCK_PROOF_OF_STAKE`. -/
def blockProofOfStake : UInt32 := 1
/-- `BLOCK_STAKE_ENTROPY`. -/
def blockStakeEntropy : UInt32 := 2
/-- `BLOCK_STAKE_MODIFIER`. -/
def blockStakeModifier : UInt32 := 4

/-- `explicit CBlockIndex(const CBlockHeader& block)`, stored under `hash`: the header's
fields, `nFlags` included, and every other field at its default. -/
def ofHeader (hash : Uint256) (block : CBlockHeader) : CBlockIndex where
  phashBlock := hash
  pprev := none
  nHeight := 0
  nChainTrust := BaseUint.zero
  nTx := 0
  nStatus := 0
  nVersion := block.nVersion
  hashMerkleRoot := block.hashMerkleRoot
  nTime := block.nTime
  nBits := block.nBits
  nNonce := block.nNonce
  nSequenceId := 0
  nTimeMax := 0
  nMint := 0
  nMoneySupply := 0
  nFlags := block.nFlags
  nStakeModifier := 0
  nStakeModifierChecksum := 0
  prevoutStake := COutPoint.null
  nStakeTime := 0
  hashProofOfStake := Uint256.zero

/-- An entry at height `nHeight` of a header with time `nTime`, bits `nBits` and flags
`nFlags`, every other field at its default: the fields the retarget and the stake
modifier walks read. -/
def basic (nHeight : Nat) (nTime nBits nFlags : UInt32) : CBlockIndex :=
  { ofHeader Uint256.zero ⟨1, Uint256.zero, Uint256.zero, nTime, nBits, 0, nFlags⟩ with nHeight }

/-- `IsProofOfStake()`: the flag the entry carries. -/
def isProofOfStake (b : CBlockIndex) : Bool := b.nFlags &&& blockProofOfStake != 0

/-- `GetBlockTime()`. -/
def getBlockTime (b : CBlockIndex) : Int := b.nTime.toNat

/-- `IsValid(nUpTo)`: not failed, and validated at least up to `nUpTo`. -/
def isValid (b : CBlockIndex) (nUpTo : UInt32) : Bool :=
  b.nStatus &&& blockFailedMask == 0 && decide (b.nStatus &&& blockValidMask ≥ nUpTo)

/-- Setting the flag bit leaves it set. -/
@[simp] theorem or_blockProofOfStake_and (x : UInt32) :
    ((x ||| blockProofOfStake) &&& blockProofOfStake != 0) = true := by
  have h : ((x ||| blockProofOfStake) &&& blockProofOfStake).toNat = 1 := by
    simp only [blockProofOfStake, UInt32.toNat_and, UInt32.toNat_or, UInt32.toNat_one,
      Nat.and_one_is_mod]
    simp [Nat.or_mod_two_eq_one]
  simp only [bne_iff_ne, ne_eq]
  intro h0
  simp [h0] at h

/-- `SetProofOfStake()`. -/
@[simps] def setProofOfStake (b : CBlockIndex) : CBlockIndex :=
  { b with nFlags := b.nFlags ||| blockProofOfStake }

@[simp] theorem isProofOfStake_setProofOfStake (b : CBlockIndex) :
    b.setProofOfStake.isProofOfStake = true := by
  simp [isProofOfStake]

/-- `RaiseValidity(nUpTo)`: the entry after the call, and whether it changed.  Only the
status word changes, and only when the entry has not failed and is validated below
`nUpTo`. -/
def raiseValidity (b : CBlockIndex) (nUpTo : UInt32) : CBlockIndex × Bool :=
  let fRaise := b.nStatus &&& blockFailedMask == 0 && b.nStatus &&& blockValidMask < nUpTo
  ({ b with nStatus := if fRaise then (b.nStatus &&& ~~~blockValidMask) ||| nUpTo else b.nStatus },
    fRaise)

end CBlockIndex

/-! ## The map and its walks -/

/-- `BlockMap`: `m_block_index`, from block hash to entry. -/
def BlockMap := Uint256 → Option CBlockIndex

namespace BlockMap

/-- `m_block_index.insert` of a new key, or an update of the entry at `k`. -/
def insert (m : BlockMap) (k : Uint256) (v : CBlockIndex) : BlockMap :=
  fun k' => if k' = k then some v else m k'

@[simp] theorem insert_self (m : BlockMap) (k : Uint256) (v : CBlockIndex) :
    m.insert k v k = some v := by
  simp [insert]

@[simp] theorem insert_of_ne (m : BlockMap) {k k' : Uint256} (v : CBlockIndex) (h : k' ≠ k) :
    m.insert k v k' = m k' := by
  simp [insert, h]

@[simp] theorem insert_insert (m : BlockMap) (k : Uint256) (v v' : CBlockIndex) :
    (m.insert k v).insert k v' = m.insert k v' := by
  funext k'
  by_cases h : k' = k <;> simp [insert, h]

/-- The invariant the block index keeps: every entry is stored under its own hash, and
its predecessor, when it has one, is stored one height lower; an entry without one
is at height zero. -/
structure WellFormed (m : BlockMap) : Prop where
  hash_eq : ∀ {k e}, m k = some e → e.phashBlock = k
  prev : ∀ {k e p}, m k = some e → e.pprev = some p →
    ∃ e', m p = some e' ∧ e'.nHeight + 1 = e.nHeight
  genesis : ∀ {k e}, m k = some e → e.pprev = none → e.nHeight = 0

end BlockMap

/-- `pindex`, `pindex->pprev`, … for at most `fuel` steps: the entry and its ancestors,
newest first.  A predecessor missing from the map ends the list, as `nullptr` would. -/
def ancestors (m : BlockMap) : (fuel : Nat) → CBlockIndex → List CBlockIndex
  | 0, pindex => [pindex]
  | fuel + 1, pindex =>
    pindex :: match pindex.pprev with
      | none => []
      | some p =>
        match m p with
        | none => []
        | some prev => ancestors m fuel prev

/-- The pointer `pindex` as the walks see it: the entry and all its ancestors. -/
def chainOf (m : BlockMap) (pindex : CBlockIndex) : List CBlockIndex :=
  ancestors m pindex.nHeight pindex

/-- A pointer's chain starts at the entry itself. -/
theorem chainOf_eq_cons (m : BlockMap) (pindex : CBlockIndex) :
    ∃ rest, chainOf m pindex = pindex :: rest := by
  unfold chainOf
  cases pindex.nHeight with
  | zero => exact ⟨[], rfl⟩
  | succ n => exact ⟨_, rfl⟩

theorem chainOf_of_pprev_none (m : BlockMap) {pindex : CBlockIndex} (h : pindex.pprev = none) :
    chainOf m pindex = [pindex] := by
  unfold chainOf
  cases pindex.nHeight with
  | zero => rfl
  | succ n => simp [ancestors, h]

/-- In a well-formed map, the walk from an entry is the entry followed by the walk from
its predecessor: the list is the pointer chain. -/
theorem chainOf_of_pprev {m : BlockMap} (hm : m.WellFormed) {k p : Uint256}
    {pindex prev : CBlockIndex} (hk : m k = some pindex) (hp : pindex.pprev = some p)
    (hprev : m p = some prev) : chainOf m pindex = pindex :: chainOf m prev := by
  obtain ⟨e', he', hheight⟩ := hm.prev hk hp
  rw [hprev] at he'
  cases he'
  unfold chainOf
  rw [← hheight]
  simp [ancestors, hp, hprev]

/-- `GetLastBlockIndex(pindex, fProofOfStake)`: back to the last entry of the
requested type, or to the genesis entry; the result is again a pointer, a suffix of
the chain. -/
def getLastBlockIndex : List CBlockIndex → Bool → List CBlockIndex
  | pindex :: prev :: rest, fProofOfStake =>
    if pindex.isProofOfStake != fProofOfStake then getLastBlockIndex (prev :: rest) fProofOfStake
    else pindex :: prev :: rest
  | l, _ => l

/-- `nMedianTimeSpan`. -/
def nMedianTimeSpan : Nat := 11

/-- `GetMedianTimePast()`: the middle of the last `nMedianTimeSpan` block times, which
the source writes into `pmedian` from the back and sorts with `std::sort`. -/
def getMedianTimePast (pindex : List CBlockIndex) : Int :=
  let pmedian := ((pindex.take nMedianTimeSpan).map CBlockIndex.getBlockTime).reverse
  (pmedian.insertionSort (· ≤ ·)).getD (pmedian.length / 2) 0

/-- `GetAncestor(height)`: the entry of the chain at `height`, none above the entry's
own height or below zero. -/
def getAncestor (pindex : List CBlockIndex) (height : Int) : Option CBlockIndex :=
  match pindex with
  | [] => none
  | p :: _ =>
    if height > p.nHeight || height < 0 then none
    else pindex.find? fun a => (a.nHeight : Int) == height

/-- The loop of `IsSuperMajority`: proof-of-work entries are passed over without being
counted among the `nToCheck`. -/
def isSuperMajorityLoop (minVersion : Int32) (nRequired nToCheck : Nat) :
    List CBlockIndex → (i nFound : Nat) → Nat
  | [], _, nFound => nFound
  | pstart :: rest, i, nFound =>
    if i < nToCheck ∧ nFound < nRequired then
      if !pstart.isProofOfStake then isSuperMajorityLoop minVersion nRequired nToCheck rest i nFound
      else
        isSuperMajorityLoop minVersion nRequired nToCheck rest (i + 1)
          (if pstart.nVersion ≥ minVersion then nFound + 1 else nFound)
    else nFound

/-- `IsSuperMajority(minVersion, pstart, nRequired, nToCheck)`. -/
def isSuperMajority (minVersion : Int32) (pstart : List CBlockIndex) (nRequired nToCheck : Nat) :
    Bool :=
  decide (isSuperMajorityLoop minVersion nRequired nToCheck pstart 0 0 ≥ nRequired)

/-- The loop counts, up to `nRequired`, the entries at `minVersion` or above among the next
`nToCheck - i` proof-of-stake entries of the walk.  Both sides are cut at `nRequired`
because the loop stops as soon as it has found that many. -/
theorem min_isSuperMajorityLoop (minVersion : Int32) (nRequired nToCheck : Nat) :
    ∀ (pstart : List CBlockIndex) (i nFound : Nat),
      min (isSuperMajorityLoop minVersion nRequired nToCheck pstart i nFound) nRequired =
        min (nFound + ((pstart.filter CBlockIndex.isProofOfStake).take (nToCheck - i)).countP
          (fun b => b.nVersion ≥ minVersion)) nRequired
  | [], i, nFound => by simp [isSuperMajorityLoop]
  | pstart :: rest, i, nFound => by
    rw [isSuperMajorityLoop]
    by_cases hloop : i < nToCheck ∧ nFound < nRequired
    case neg =>
      -- the loop stops with the budget spent or the count reached
      rw [if_neg hloop]
      rcases not_and_or.mp hloop with hi | hfound
      · rw [Nat.sub_eq_zero_of_le (not_lt.mp hi), List.take_zero, List.countP_nil, Nat.add_zero]
      · omega
    case pos =>
      rw [if_pos hloop]
      have ih := min_isSuperMajorityLoop minVersion nRequired nToCheck rest
      by_cases hpos : pstart.isProofOfStake
      case neg =>
        -- `continue` still runs `pstart = pstart->pprev`, but not `i++`
        rw [if_pos (by simpa using hpos), List.filter_cons_of_neg (by simpa using hpos)]
        exact ih i nFound
      case pos =>
        rw [if_neg (by simpa using hpos), List.filter_cons_of_pos hpos,
          show nToCheck - i = nToCheck - (i + 1) + 1 by omega, List.take_succ_cons,
          List.countP_cons, ih]
        by_cases hv : pstart.nVersion ≥ minVersion
        · simp only [hv, if_true, decide_true]
          omega
        · simp only [hv, decide_false, Bool.false_eq_true, ↓reduceIte]
          omega

/-- `IsSuperMajority` holds exactly when `nRequired` of the first `nToCheck` proof-of-stake
entries of the walk from `pstart` are at `minVersion` or above. -/
theorem isSuperMajority_iff_countP (minVersion : Int32) (pstart : List CBlockIndex)
    (nRequired nToCheck : Nat) :
    isSuperMajority minVersion pstart nRequired nToCheck = true ↔
      nRequired ≤ ((pstart.filter CBlockIndex.isProofOfStake).take nToCheck).countP
        (fun b => b.nVersion ≥ minVersion) := by
  have hloop := min_isSuperMajorityLoop minVersion nRequired nToCheck pstart 0 0
  rw [Nat.sub_zero, Nat.zero_add] at hloop
  rw [isSuperMajority, decide_eq_true_iff]
  omega

/-- `IsProtocolV06(pindexPrev)`: the switch time, and 900 of the last 1000
proof-of-stake entries at version 2 (90 of 100 off the main network). -/
def isProtocolV06 (net : Network) (pindexPrev : List CBlockIndex) : Bool :=
  match pindexPrev with
  | [] => false
  | p :: _ =>
    if p.nTime.toNat < protocolV06SwitchTime net then false
    else if net = .main then isSuperMajority 2 pindexPrev 900 1000
    else isSuperMajority 2 pindexPrev 90 100

/-! ## The active chain -/

/-- `CChain`: the hashes of the active chain's entries, by height. -/
structure CChain where
  vChain : List Uint256

namespace CChain

/-- `Contains(pindex)`: the active chain's entry at the entry's height is the entry. -/
def contains (chain : CChain) (pindex : CBlockIndex) : Bool :=
  chain.vChain[pindex.nHeight]? == some pindex.phashBlock

/-- `Next(pindex)`: the entry after `pindex` on the active chain, none off it or at
its tip. -/
def next (chain : CChain) (m : BlockMap) (pindex : CBlockIndex) : Option CBlockIndex :=
  if chain.contains pindex then chain.vChain[pindex.nHeight + 1]?.bind m else none

/-- `Tip()`. -/
def tip (chain : CChain) (m : BlockMap) : Option CBlockIndex := chain.vChain.getLast?.bind m

/-- `Height()`: `-1` for the empty chain. -/
def height (chain : CChain) : Int := (chain.vChain.length : Int) - 1

end CChain

/-- `GetBlockTrust(block)`: one for proof of work, `2^256 / (target + 1)` for proof of
stake, computed as `~target / (target + 1) + 1`; zero for an invalid target.  The
division throws on a zero divisor, as `base_uint::operator/=` does. -/
def getBlockTrust (block : CBlockIndex) : Except String ArithUint256 :=
  let d := ArithUint256.setCompact block.nBits
  if d.fNegative || d.fOverflow || d.value.equalTo 0 ArithUint256.two_le_width then pure BaseUint.zero
  else if block.isProofOfStake then do
    let q ← d.value.bnot.div (d.value.add (BaseUint.ofUInt64 1))
    pure (q.add (BaseUint.ofUInt64 1))
  else pure (BaseUint.ofUInt64 1)

end Sumcoin
