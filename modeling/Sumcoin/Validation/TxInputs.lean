import Sumcoin.Coins.Coins
import Sumcoin.Validation.CheckBlock

/-!
# Checks against the coins: `Consensus::CheckTxInputs` and `GetCoinAge`

`CheckTxInputs` looks up every input's coin, rejects an immature coinbase or coinstake
and an input whose coin is younger than the transaction (`coin.nTime > nTimeTx`), and
sums the inputs.  An ordinary transaction must then pay at least `GetMinFee`; a
coinstake may create at most `GetProofOfStakeReward` less its size cost, a bound the
source skips while `nMoneySupply` is zero.

`GetCoinAge` reads each spent transaction back from the transaction index, so it sees
the transaction as deserialized.  Its `arith_uint256` arithmetic is taken at its value,
modulo `2^256`.

## Main definitions

* `TxValidationResult`, `TxFailure`.
* `getCoinAge`, `getProofOfStakeReward`, `checkTxInputs`.
-/

namespace Sumcoin

/-- `TxValidationResult`: the results `CheckTxInputs` reports. -/
inductive TxValidationResult where
  | txConsensus
  | txMissingInputs
  | txPrematureSpend
  deriving DecidableEq, Repr

/-- How `CheckTxInputs` ends when it does not return `true`. -/
inductive TxFailure where
  /-- `return state.Invalid(result, reason, debug)`. -/
  | invalid (result : TxValidationResult) (reason debug : String)
  /-- The exception `GetValueOut` throws. -/
  | thrown (what : String)
  deriving DecidableEq, Repr

/-- The transaction index as `GetCoinAge` reads it: for a txid, the header of the block
holding the transaction and the transaction as read from the block file. -/
def TxIndex := Uint256 → Option (CBlockHeader × CTransaction)

/-- `int nEffectiveAge = ...`: an `int64_t` narrowed to `int`. -/
def toInt32Wrap (x : Int) : Int := x.bmod (2 ^ 32)

/-- One input of `GetCoinAge`'s loop, from the cent-seconds so far; `none` when the loop
returns `false`. -/
def coinAgeStep (hash256 : List UInt8 → Uint256) (chainparams : ChainParams)
    (view : CCoinsViewCache) (txIndex : TxIndex) (nTimeTx : UInt32) (isTrueCoinAge : Bool)
    (bnCentSecond : Nat) (txin : CTxIn) : Option Nat :=
  let prevout := txin.prevout
  match (if isTrueCoinAge then view prevout else some Coin.empty) with
  -- previous transaction not in main chain
  | none => some bnCentSecond
  | some coin =>
    if nTimeTx < coin.nTime then none
    else
      match txIndex prevout.hash with
      | none => none
      | some (header, txPrev) =>
        if txPrev.getHash hash256 ≠ prevout.hash then none
        else if header.nTime.toNat + chainparams.consensus.nStakeMinAge > nTimeTx.toNat then
          some bnCentSecond
        else
          let nValueIn := (txPrev.vout.getD prevout.n.toNat ⟨-1, []⟩).nValue
          let nTimePrev : Int := if txPrev.nTime ≠ 0 then txPrev.nTime.toNat else header.nTime.toNat
          let nEffectiveAge := toInt32Wrap (nTimeTx.toNat - nTimePrev)
          let nEffectiveAge := if !isTrueCoinAge || isProtocolV09 chainparams.network nTimeTx then
            min nEffectiveAge (365 * 24 * 60 * 60) else nEffectiveAge
          -- `arith_uint256(nValueIn) * nEffectiveAge / CENT`, with the factors unsigned
          let term := (nValueIn % 2 ^ 64).toNat * (nEffectiveAge % 2 ^ 32).toNat % 2 ^ 256 /
            cent.toNat
          some ((bnCentSecond + term) % 2 ^ 256)

/-- `GetCoinAge(tx, view, nCoinAge, nTimeTx, isTrueCoinAge)`: the coin age in coin-days,
or `none` when the source returns `false`. -/
def getCoinAge (hash256 : List UInt8 → Uint256) (chainparams : ChainParams)
    (txIndex : Option TxIndex) (tx : CTransaction) (view : CCoinsViewCache) (nTimeTx : UInt32)
    (isTrueCoinAge : Bool) : Option UInt64 :=
  if tx.isCoinBase then some 0
  else
    match txIndex with
    -- transaction index not available
    | none => none
    | some txIndex => do
      let bnCentSecond ← tx.vin.foldlM
        (coinAgeStep hash256 chainparams view txIndex nTimeTx isTrueCoinAge) 0
      let bnCoinDay := bnCentSecond * cent.toNat % 2 ^ 256 / coin.toNat / (24 * 60 * 60)
      pure (UInt64.ofNat bnCoinDay)

/-- `GetProofOfStakeReward(nCoinAge, nTime, nMoneySupply)`: a fixed 6 SUM per block. -/
def getProofOfStakeReward (_nCoinAge : UInt64) (_nTime : UInt32) (_nMoneySupply : UInt64) :
    CAmount :=
  6000000

/-- `GetValueOut()` called inside `CheckTxInputs`, whose exception leaves it. -/
def CTransaction.getValueOutE (tx : CTransaction) : Except TxFailure CAmount :=
  match tx.getValueOut with
  | .ok v => pure v
  | .error what => throw (.thrown what)

section

variable (hash256 : List UInt8 → Uint256) (chainparams : ChainParams) (txIndex : Option TxIndex)

/-- One input of `CheckTxInputs`' loop, from the inputs' value so far. -/
def checkTxInput (view : CCoinsViewCache) (nSpendHeight : Int) (nTimeTx : UInt32)
    (nValueIn : CAmount) (txin : CTxIn) : Except TxFailure CAmount :=
  let coin := view.accessCoin txin.prevout
  if (coin.fCoinBase || coin.fCoinStake) &&
      nSpendHeight - coin.nHeight < chainparams.consensus.nCoinbaseMaturity then
    throw (.invalid .txPrematureSpend "bad-txns-premature-spend-of-coinbase/coinstake"
      ("tried to spend coinbase at depth " ++ toString (nSpendHeight - coin.nHeight)))
  else if coin.nTime > nTimeTx then
    throw (.invalid .txConsensus "bad-txns-spent-too-early"
      "CheckTxInputs : transaction timestamp earlier than input transaction")
  else
    let nValueIn := nValueIn + coin.out.nValue
    if !moneyRange coin.out.nValue || !moneyRange nValueIn then
      throw (.invalid .txConsensus "bad-txns-inputvalues-outofrange" "")
    else pure nValueIn

/-- `Consensus::CheckTxInputs(tx, state, inputs, nSpendHeight, txfee, params, nTimeTx,
nMoneySupply)`: the fee it writes into `txfee`, which keeps its value for a coinstake. -/
def checkTxInputs (tx : CTransaction) (inputs : CCoinsViewCache) (nSpendHeight : Int)
    (txfee : CAmount) (nTimeTx : UInt32) (nMoneySupply : UInt64) : Except TxFailure CAmount := do
  let net := chainparams.network
  if !inputs.haveInputs tx then
    throw (.invalid .txMissingInputs "bad-txns-inputs-missingorspent"
      "CheckTxInputs: inputs missing/spent")
  let nValueIn ← tx.vin.foldlM (checkTxInput chainparams inputs nSpendHeight nTimeTx) 0
  if tx.isCoinStake then
    match getCoinAge hash256 chainparams txIndex tx inputs nTimeTx true with
    | none => throw (.invalid .txConsensus "unable to get coin age for coinstake" "")
    | some nCoinAge =>
      let nStakeReward := (← tx.getValueOutE) - nValueIn
      let nMinFee := getMinFee net tx nTimeTx
      let nCoinstakeCost := if nMinFee < perkbTxFee then 0 else nMinFee - perkbTxFee
      if nMoneySupply ≠ 0 ∧
          nStakeReward > getProofOfStakeReward nCoinAge nTimeTx nMoneySupply - nCoinstakeCost then
        throw (.invalid .txConsensus "bad-txns-coinstake-too-large" "")
      pure txfee
  else
    let valueOut ← tx.getValueOutE
    if nValueIn < valueOut then
      throw (.invalid .txConsensus "bad-txns-in-belowout"
        ("value in (" ++ formatMoney nValueIn ++ ") < value out (" ++ formatMoney valueOut ++ ")"))
    let txfeeAux := nValueIn - valueOut
    if !moneyRange txfeeAux then throw (.invalid .txConsensus "bad-txns-fee-outofrange" "")
    if txfeeAux < getMinFee net tx nTimeTx then
      throw (.invalid .txConsensus "bad-txns-fee-not-enough" "")
    pure txfeeAux

end

/-! ## A coin's time comes from the object in memory -/

/-- A version-3 transaction paying 1 SUM to `OP_1`, as a node holds it with `nTime`.  The
node that created it holds the time `CMutableTransaction()` set, and keeps that object in
its mempool; a node that read it from the network holds 0. -/
def paymentAt (nTime : UInt32) : CTransaction :=
  { vin := [⟨⟨Uint256.ofNat 1, 0⟩, [], 0xffffffff, ⟨[]⟩⟩]
    vout := [⟨1000000, [Script.op1]⟩]
    nVersion := 3
    nTime := nTime
    nLockTime := 0 }

/-- A version-3 spend of the payment's output, paying a fee of one cent. -/
def paymentSpend : CTransaction :=
  { vin := [⟨⟨(paymentAt 0).getHash cHash256, 0⟩, [], 0xffffffff, ⟨[]⟩⟩]
    vout := [⟨990000, [Script.op1]⟩]
    nVersion := 3
    nTime := 0
    nLockTime := 0 }

/-- The payment serializes alike with time 1700000000 and with time 0, but `AddCoins`
stores its coin with either time, and `CheckTxInputs` of a spend in a block at time
1699990000 rejects it after the first and accepts it after the second. -/
theorem addCoins_time_splits_checkTxInputs :
    Ser.transaction true (paymentAt 1700000000) = Ser.transaction true (paymentAt 0) ∧
      ((addCoins cHash256 CCoinsViewCache.empty (paymentAt 1700000000) 100 false).toOption.map
        fun view => ((view ⟨(paymentAt 0).getHash cHash256, 0⟩).map (·.nTime),
          checkTxInputs cHash256 mainParams none paymentSpend view 101 0 1699990000 1)) =
        some (some 1700000000, .error (.invalid .txConsensus "bad-txns-spent-too-early"
          "CheckTxInputs : transaction timestamp earlier than input transaction")) ∧
      ((addCoins cHash256 CCoinsViewCache.empty (paymentAt 0) 100 false).toOption.map
        fun view => ((view ⟨(paymentAt 0).getHash cHash256, 0⟩).map (·.nTime),
          checkTxInputs cHash256 mainParams none paymentSpend view 101 0 1699990000 1)) =
        some (some 0, .ok 10000) := by
  decide +kernel

end Sumcoin
