import Sumcoin.Consensus.TxCheck

/-!
# The coins view: `coins.h`, `coins.cpp`

A `Coin` is an unspent output together with the height, the type and the time of the
transaction that created it; this chain adds `fCoinStake` and `nTime` to Bitcoin's
record, and serializes both into the chainstate.  `CCoinsViewCache` is modelled by what
validation reads of it: for each outpoint, the unspent coin if there is one.  Spent
entries and the cache's `DIRTY`/`FRESH` bookkeeping change no answer of the view and are
left out.

`AddCoins` stamps every coin with `tx.nTime` as the transaction object holds it.  From
version 3 on that field is not serialized (`Ser.transaction_setTime`), so two objects
with one serialization and one txid can write different coins.

## Main definitions

* `Coin`, `CCoinsViewCache`, `CCoinsViewCache.haveInputs`.
* `CCoinsViewCache.addCoin`, `addCoins`, `updateCoins`.
-/

namespace Sumcoin

/-- `CTxOut::IsNull()`: the value `-1` that `SetNull` writes. -/
def CTxOut.isNull (o : CTxOut) : Bool := o.nValue == -1

/-- `MAX_SCRIPT_SIZE`. -/
def maxScriptSize : Nat := 10000

/-- `OP_RETURN`. -/
def Script.opReturn : UInt8 := 0x6a

/-- `CScript::IsUnspendable()`: an `OP_RETURN` script, or one too long to run. -/
def Script.isUnspendable (script : CScript) : Bool :=
  script.head? == some Script.opReturn || decide (script.length > maxScriptSize)

/-- `Coin`. -/
structure Coin where
  out : CTxOut
  fCoinBase : Bool
  nHeight : Nat
  fCoinStake : Bool
  nTime : UInt32
  deriving DecidableEq, Repr

namespace Coin

/-- `Coin()`: a null output, at height zero, time zero. -/
def empty : Coin := ⟨⟨-1, []⟩, false, 0, false, 0⟩

/-- `IsSpent()`. -/
def isSpent (c : Coin) : Bool := c.out.isNull

end Coin

/-- `CCoinsViewCache`, by the unspent coin at each outpoint. -/
abbrev CCoinsViewCache := COutPoint → Option Coin

namespace CCoinsViewCache

/-- The view with `coin` at `o`. -/
def insert (view : CCoinsViewCache) (o : COutPoint) (coin : Coin) : CCoinsViewCache :=
  fun o' => if o' = o then some coin else view o'

/-- The view with nothing at `o`. -/
def erase (view : CCoinsViewCache) (o : COutPoint) : CCoinsViewCache :=
  fun o' => if o' = o then none else view o'

@[simp] theorem insert_self (view : CCoinsViewCache) (o : COutPoint) (coin : Coin) :
    view.insert o coin o = some coin := by
  simp [insert]

@[simp] theorem insert_of_ne (view : CCoinsViewCache) {o o' : COutPoint} (coin : Coin)
    (h : o' ≠ o) : view.insert o coin o' = view o' := by
  simp [insert, h]

/-- The view of a node with no coins. -/
def empty : CCoinsViewCache := fun _ => none

/-- `HaveCoin(outpoint)`. -/
def haveCoin (view : CCoinsViewCache) (o : COutPoint) : Bool := (view o).isSome

/-- `AccessCoin(outpoint)`: the coin, or `coinEmpty`. -/
def accessCoin (view : CCoinsViewCache) (o : COutPoint) : Coin := (view o).getD Coin.empty

/-- `HaveInputs(tx)`: a coinbase has none to look for. -/
def haveInputs (view : CCoinsViewCache) (tx : CTransaction) : Bool :=
  tx.isCoinBase || tx.vin.all fun txin => view.haveCoin txin.prevout

/-- `AddCoin(outpoint, coin, possible_overwrite)`: a spent coin is the failed
`assert(!coin.IsSpent())`; unspendable outputs are not stored, and a coin may replace an
unspent one only when the caller allows it. -/
def addCoin (view : CCoinsViewCache) (o : COutPoint) (coin : Coin) (possibleOverwrite : Bool) :
    Except String CCoinsViewCache :=
  if coin.isSpent then throw "assert(!coin.IsSpent())"
  else if Script.isUnspendable coin.out.scriptPubKey then pure view
  else if !possibleOverwrite && view.haveCoin o then
    throw "Adding new coin that replaces non-pruned entry"
  else pure (view.insert o coin)

/-- `SpendCoin(outpoint, moveout)`: the view without the coin, and the coin it held. -/
def spendCoin (view : CCoinsViewCache) (o : COutPoint) : Option (CCoinsViewCache × Coin) :=
  (view o).map fun coin => (view.erase o, coin)

/-- A successful `AddCoin` leaves the view as it was or stores the coin at the outpoint. -/
theorem addCoin_eq_ok {view view' : CCoinsViewCache} {o : COutPoint} {coin : Coin}
    {possibleOverwrite : Bool} (h : view.addCoin o coin possibleOverwrite = .ok view') :
    view' = view ∨ view' = view.insert o coin := by
  unfold addCoin at h
  split at h
  case isTrue => cases h
  case isFalse =>
    split at h
    case isTrue => exact .inl (Except.pure_eq_ok.mp h).symm
    case isFalse =>
      split at h
      case isTrue => cases h
      case isFalse => exact .inr (Except.pure_eq_ok.mp h).symm

end CCoinsViewCache

section

variable (hash256 : List UInt8 → Uint256)

/-- The coin `AddCoins` writes for output `txout` of `tx` at `nHeight`. -/
def CTransaction.outputCoin (tx : CTransaction) (txout : CTxOut) (nHeight : Nat) : Coin :=
  ⟨txout, tx.isCoinBase, nHeight, tx.isCoinStake, tx.nTime⟩

/-- `AddCoins(cache, tx, nHeight, check)`: every output under `(txid, i)`.  With `check`
an output may overwrite only what is already there; without it only a coinbase may. -/
def addCoins (view : CCoinsViewCache) (tx : CTransaction) (nHeight : Nat) (check : Bool) :
    Except String CCoinsViewCache :=
  let fCoinbase := tx.isCoinBase
  let txid := tx.getHash hash256
  tx.vout.zipIdx.foldlM (fun view (txout, i) =>
    let o : COutPoint := ⟨txid, i.toUInt32⟩
    let overwrite := if check then view.haveCoin o else fCoinbase
    view.addCoin o (tx.outputCoin txout nHeight) overwrite) view

/-- `UpdateCoins(tx, inputs, txundo, nHeight)`: the inputs spent, their coins in order
for the undo data, and the outputs added.  A missing input is the failed
`assert(is_spent)`. -/
def updateCoins (view : CCoinsViewCache) (tx : CTransaction) (nHeight : Nat) :
    Except String (CCoinsViewCache × List Coin) := do
  let (view, undo) ← if tx.isCoinBase then pure (view, [])
    else tx.vin.foldlM (fun (view, undo) txin =>
      match view.spendCoin txin.prevout with
      | some (view', coin) => pure (view', undo ++ [coin])
      | none => throw "assert(is_spent)") (view, [])
  let view ← addCoins hash256 view tx nHeight false
  pure (view, undo)

/-- From version 3 on, the txid does not depend on `nTime`. -/
theorem CTransaction.getHash_setTime {tx : CTransaction} (t : UInt32) (h : ¬ tx.nVersion < 3) :
    ({ tx with nTime := t } : CTransaction).getHash hash256 = tx.getHash hash256 := by
  simp only [CTransaction.getHash, Ser.transaction_setTime false tx t h]

end

end Sumcoin
