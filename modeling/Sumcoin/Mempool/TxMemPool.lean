import Sumcoin.Validation.TxInputs

/-!
# The mempool after a reorganisation: `CTxMemPool::removeForReorg`

When blocks are disconnected the mempool may hold transactions that are no longer final
or whose inputs are no longer mature.  `removeForReorg` stages every entry that is not
final or fails its sequence locks, and every entry flagged `GetSpendsCoinbase()` one of
whose inputs outside the pool is spent or an immature coinbase; it then removes the
staged entries with all their descendants in the pool.

The flag is set by `MemPoolAccept::PreChecks` for a transaction spending a coinbase *or a
coinstake* output, and `Consensus::CheckTxInputs` holds both to `nCoinbaseMaturity`; but
the test `removeForReorg` repeats tests `coin.IsCoinBase()` only.  What it guarantees is
`removeForReorg_spec`; a spend of a coinstake output that a reorganisation made immature
again stays in the pool (`removeForReorg_keeps_immature_coinstake_spend`).

`CheckFinalTx` and `CheckSequenceLocks` read the chain and the entry's lock points, which
are not modelled: their conjunction is a parameter, and the lock points the loop refreshes
are left out.

## Main definitions

* `CTxMemPoolEntry`, `preChecksSpendsCoinbase`, `TxMemPool`.
* `TxMemPool.calculateDescendants`, `TxMemPool.removeForReorg`.

## Main statements

* `TxMemPool.removeForReorg_spec`: what a successful `removeForReorg` leaves.
-/

namespace Sumcoin

/-- `CTxMemPoolEntry`, by what `removeForReorg` reads of it: the transaction and
`GetSpendsCoinbase()`. -/
structure CTxMemPoolEntry where
  tx : CTransaction
  spendsCoinbase : Bool
  deriving DecidableEq, Repr

/-- `fSpendsCoinbase` as `MemPoolAccept::PreChecks` sets it: some input's coin is a
coinbase or a coinstake. -/
def preChecksSpendsCoinbase (view : CCoinsViewCache) (tx : CTransaction) : Bool :=
  tx.vin.any fun txin =>
    let coin := view.accessCoin txin.prevout
    coin.fCoinBase || coin.fCoinStake

/-- `CTxMemPool::mapTx`, in its order. -/
abbrev TxMemPool := List CTxMemPoolEntry

namespace TxMemPool

section

variable (hash256 : List UInt8 → Uint256)

/-- `mapTx.find(hash) != mapTx.end()`. -/
def containsTx (pool : TxMemPool) (hash : Uint256) : Bool :=
  pool.any fun e => e.tx.getHash hash256 == hash

/-- Entry `c` spends an output of entry `p`: `c` is a child of `p` in the pool. -/
def spendsFrom (c p : CTxMemPoolEntry) : Bool :=
  c.tx.vin.any fun txin => txin.prevout.hash == p.tx.getHash hash256

/-- `CalculateDescendants` for every staged entry, with `fuel` rounds: the staged entries
and, round by round, the pool's entries spending one of them. -/
def calculateDescendants (pool : TxMemPool) : (fuel : Nat) → TxMemPool → TxMemPool
  | 0, stage => stage
  | fuel + 1, stage =>
    let next := pool.filter fun c => decide (c ∉ stage) && stage.any (spendsFrom hash256 c)
    if next = [] then stage else calculateDescendants pool fuel (stage ++ next)

variable (pcoins : CCoinsViewCache) (nMemPoolHeight : Nat) (nCoinbaseMaturity : Int)
  (nCheckFrequency : Nat)

/-- The input loop of `removeForReorg` for an entry that spends a coinbase: `true` when an
input outside the pool has a spent coin or an immature coinbase coin (the `break`), after
`assert(!coin.IsSpent())` when the pool is checked. -/
def reorgInputs (pool : TxMemPool) : List CTxIn → Except String Bool
  | [] => pure false
  | txin :: rest =>
    if pool.containsTx hash256 txin.prevout.hash then reorgInputs pool rest
    else
      let coin := pcoins.accessCoin txin.prevout
      if nCheckFrequency ≠ 0 ∧ coin.isSpent then throw "assert(!coin.IsSpent())"
      else if coin.isSpent || (coin.fCoinBase &&
          decide ((nMemPoolHeight : Int) - coin.nHeight < nCoinbaseMaturity)) then
        pure true
      else reorgInputs pool rest

variable (checkFinal : CTxMemPoolEntry → Bool)

/-- Whether `removeForReorg` stages entry `e`: `checkFinal` stands for
`CheckFinalTx(tx, flags) && CheckSequenceLocks(...)`. -/
def stagedForReorg (pool : TxMemPool) (e : CTxMemPoolEntry) : Except String Bool :=
  if !checkFinal e then pure true
  else if e.spendsCoinbase then reorgInputs hash256 pcoins nMemPoolHeight nCoinbaseMaturity
    nCheckFrequency pool e.tx.vin
  else pure false

/-- The loop of `removeForReorg` over `mapTx`: the entries it inserts in `txToRemove`. -/
def stageForReorg (pool : TxMemPool) : List CTxMemPoolEntry → Except String TxMemPool
  | [] => pure []
  | e :: rest => do
    let b ← stagedForReorg hash256 pcoins nMemPoolHeight nCoinbaseMaturity nCheckFrequency
      checkFinal pool e
    let staged ← stageForReorg pool rest
    pure (if b then e :: staged else staged)

/-- `CTxMemPool::removeForReorg(pcoins, nMemPoolHeight, flags)`: the pool without the
staged entries and their descendants (`RemoveStaged`). -/
def removeForReorg (pool : TxMemPool) : Except String TxMemPool := do
  let txToRemove ← stageForReorg hash256 pcoins nMemPoolHeight nCoinbaseMaturity nCheckFrequency
    checkFinal pool pool
  let setAllRemoves := calculateDescendants hash256 pool pool.length txToRemove
  pure (pool.filter fun e => decide (e ∉ setAllRemoves))

/-! ## What `removeForReorg` leaves -/

/-- What the input loop accepts of an input: it is in the pool, or its coin is unspent
and is not a coinbase below `nCoinbaseMaturity` confirmations. -/
def InputKept (pool : TxMemPool) (txin : CTxIn) : Prop :=
  pool.containsTx hash256 txin.prevout.hash = true ∨
    ((pcoins.accessCoin txin.prevout).isSpent = false ∧
      ((pcoins.accessCoin txin.prevout).fCoinBase = true →
        nCoinbaseMaturity ≤ (nMemPoolHeight : Int) - (pcoins.accessCoin txin.prevout).nHeight))

/-- An entry the input loop does not stage keeps every input. -/
theorem reorgInputs_eq_false {pool : TxMemPool} :
    ∀ {l : List CTxIn}, reorgInputs hash256 pcoins nMemPoolHeight nCoinbaseMaturity
      nCheckFrequency pool l = .ok false →
      ∀ txin ∈ l, InputKept hash256 pcoins nMemPoolHeight nCoinbaseMaturity pool txin
  | [], _ => by simp
  | txin :: rest, h => by
    unfold reorgInputs at h
    split at h
    case isTrue hin =>
      -- an input in the pool: the loop goes on
      intro t ht
      rcases List.mem_cons.mp ht with rfl | ht
      · exact .inl hin
      · exact reorgInputs_eq_false h t ht
    case isFalse hin =>
      dsimp only at h
      split at h
      case isTrue => cases h
      case isFalse =>
        split at h
        case isTrue => cases h
        case isFalse hcoin =>
          -- the coin passed the test: unspent, and mature if it is a coinbase
          intro t ht
          rcases List.mem_cons.mp ht with rfl | ht
          · refine .inr ⟨?_, fun hcb => ?_⟩
            · simp only [Bool.or_eq_true, not_or] at hcoin
              simpa using hcoin.1
            · simp only [Bool.or_eq_true, Bool.and_eq_true, decide_eq_true_eq, not_or,
                not_and] at hcoin
              have := hcoin.2 hcb
              omega
          · exact reorgInputs_eq_false h t ht

/-- An entry the loop does not stage was not staged by its decision. -/
theorem stagedForReorg_of_not_mem {pool : TxMemPool} :
    ∀ {l r : List CTxMemPoolEntry}, stageForReorg hash256 pcoins nMemPoolHeight nCoinbaseMaturity
      nCheckFrequency checkFinal pool l = .ok r → ∀ e ∈ l, e ∉ r →
      stagedForReorg hash256 pcoins nMemPoolHeight nCoinbaseMaturity nCheckFrequency checkFinal
        pool e = .ok false
  | [], _, _ => by simp
  | e :: rest, r, h => by
    simp only [stageForReorg, Except.bind_eq_ok, Except.pure_eq_ok] at h
    obtain ⟨b, hb, staged, hstaged, rfl⟩ := h
    intro e' he' hnot
    rcases List.mem_cons.mp he' with rfl | he'
    · cases b with
      | false => exact hb
      | true => simp at hnot
    · apply stagedForReorg_of_not_mem hstaged e' he'
      intro hmem
      apply hnot
      cases b <;> simp [hmem]

/-- The descendants include the staged entries. -/
theorem subset_calculateDescendants (pool : TxMemPool) :
    ∀ (fuel : Nat) (stage : TxMemPool) (e : CTxMemPoolEntry), e ∈ stage →
      e ∈ calculateDescendants hash256 pool fuel stage
  | 0, _, _, he => he
  | fuel + 1, stage, e, he => by
    rw [calculateDescendants]
    split
    · exact he
    · exact subset_calculateDescendants pool fuel _ e (List.mem_append_left _ he)

/-- **What `removeForReorg` leaves.**  Every entry left was in the pool, passes
`checkFinal`, and, when flagged as spending a coinbase, keeps each input: in the pool, or
an unspent coin that is not a coinbase below `nCoinbaseMaturity` confirmations.  Nothing
is said of a coinstake coin. -/
theorem removeForReorg_spec {pool pool' : TxMemPool}
    (h : removeForReorg hash256 pcoins nMemPoolHeight nCoinbaseMaturity nCheckFrequency
      checkFinal pool = .ok pool') :
    ∀ e ∈ pool', e ∈ pool ∧ checkFinal e = true ∧
      (e.spendsCoinbase = true →
        ∀ txin ∈ e.tx.vin, InputKept hash256 pcoins nMemPoolHeight nCoinbaseMaturity pool txin) := by
  simp only [removeForReorg, Except.bind_eq_ok, Except.pure_eq_ok] at h
  obtain ⟨txToRemove, hstage, rfl⟩ := h
  intro e he
  rw [List.mem_filter] at he
  obtain ⟨hmem, hkept⟩ := he
  -- not among the descendants, so not staged, so its decision was `false`
  have hnot : e ∉ txToRemove := fun hs => by
    simp [subset_calculateDescendants hash256 pool _ _ e hs] at hkept
  have hdecide := stagedForReorg_of_not_mem hash256 pcoins nMemPoolHeight nCoinbaseMaturity
    nCheckFrequency checkFinal hstage e hmem hnot
  unfold stagedForReorg at hdecide
  split at hdecide
  case isTrue => cases hdecide
  case isFalse hfinal =>
    refine ⟨hmem, by simpa using hfinal, fun hcb => ?_⟩
    rw [if_pos hcb] at hdecide
    exact reorgInputs_eq_false hash256 pcoins nMemPoolHeight nCoinbaseMaturity nCheckFrequency
      hdecide

end

/-! ## A coinstake spend made immature again -/

/-- A coinstake output of 5 SUM to `OP_1`, confirmed at height 50. -/
def stakeCoin : Coin := ⟨⟨5000000, [Script.op1]⟩, false, 50, true, 1700000000⟩

/-- The outpoint of the coinstake output. -/
def stakeOutPoint : COutPoint := ⟨Uint256.ofNat 7, 1⟩

/-- The coins after the reorganisation: the coinstake output, still unspent. -/
def stakeView : CCoinsViewCache := CCoinsViewCache.empty.insert stakeOutPoint stakeCoin

/-- A version-3 spend of the coinstake output, accepted to the pool while it was mature. -/
def stakeSpend : CTransaction :=
  { vin := [⟨stakeOutPoint, [], 0xffffffff, ⟨[]⟩⟩]
    vout := [⟨4990000, [Script.op1]⟩]
    nVersion := 3
    nTime := 0
    nLockTime := 0 }

/-- A reorganisation at height 100 keeps the pool's coinstake spend, and with it what
`removeForReorg_spec` says of every kept entry. -/
theorem removeForReorg_spec_stakeSpend :
    removeForReorg (fun _ => Uint256.zero) stakeView 100 mainParams.consensus.nCoinbaseMaturity 0
        (fun _ => true) [⟨stakeSpend, true⟩] = .ok [⟨stakeSpend, true⟩] ∧
      ∀ e ∈ ([⟨stakeSpend, true⟩] : TxMemPool), e ∈ ([⟨stakeSpend, true⟩] : TxMemPool) ∧
        (fun _ => true) e = true ∧
        (e.spendsCoinbase = true → ∀ txin ∈ e.tx.vin,
          InputKept (fun _ => Uint256.zero) stakeView 100 mainParams.consensus.nCoinbaseMaturity
            [⟨stakeSpend, true⟩] txin) := by
  have h : removeForReorg (fun _ => Uint256.zero) stakeView 100 mainParams.consensus.nCoinbaseMaturity 0
      (fun _ => true) [⟨stakeSpend, true⟩] = .ok [⟨stakeSpend, true⟩] := by
    decide +kernel
  exact ⟨h, removeForReorg_spec _ _ _ _ _ _ h⟩

/-- At mempool height 100 the coinstake output has 50 confirmations, fewer than the 100
`CheckTxInputs` asks of it.  The spend, flagged by `PreChecks` as spending a coinbase and
final, stays in the pool after `removeForReorg`, though `CheckTxInputs` at that height
rejects it as a premature spend. -/
theorem removeForReorg_keeps_immature_coinstake_spend :
    preChecksSpendsCoinbase stakeView stakeSpend = true ∧
      removeForReorg cHash256 stakeView 100 mainParams.consensus.nCoinbaseMaturity 0 (fun _ => true)
          [⟨stakeSpend, true⟩] = .ok [⟨stakeSpend, true⟩] ∧
      checkTxInput mainParams stakeView 100 stakeSpend.nTime 0 ⟨stakeOutPoint, [], 0xffffffff, ⟨[]⟩⟩ =
        .error (.invalid .txPrematureSpend "bad-txns-premature-spend-of-coinbase/coinstake"
          "tried to spend coinbase at depth 50") := by
  decide +kernel

end TxMemPool

end Sumcoin
