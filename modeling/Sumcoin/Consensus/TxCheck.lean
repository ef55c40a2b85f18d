import Sumcoin.Lib.Except
import Sumcoin.Consensus.Params

/-!
# Context-free transaction checks: `consensus/tx_check.cpp`, `consensus/tx_verify.cpp`

`CheckTransaction` answers with the reject reason of the first check that fails;
every failure it reports is `TX_CONSENSUS`, so the model returns the reason alone.
Its output loop bounds each value and the running total before it adds the next
one, which is what `GetValueOut` needs not to throw.

This chain adds one output rule: below version 3, an output that is not empty must
carry at least `MIN_TXOUT_AMOUNT`, except a zero output after `IsZeroAllowed`.

## Main definitions

* `checkTransaction`, `getLegacySigOpCount`, `getMinFee`.
-/

namespace Sumcoin

/-- `MAX_BLOCK_WEIGHT`. -/
def maxBlockWeight : Nat := 4000000

/-- `WITNESS_SCALE_FACTOR`. -/
def witnessScaleFactor : Nat := 4

/-- `MAX_BLOCK_SIGOPS_COST`. -/
def maxBlockSigopsCost : Nat := 80000

/-- `SER_NETWORK`. -/
def serNetwork : Nat := 1

/-- `IsZeroAllowed(nTimeTx)`. -/
def isZeroAllowed (nTimeTx : UInt32) : Bool := decide (nTimeTx.toNat ≥ 1447700000)

/-- One pass of `CheckTransaction`'s output loop, from the running total `nValueOut`. -/
def checkTxOut (tx : CTransaction) (nValueOut : CAmount) (txout : CTxOut) :
    Except String CAmount :=
  if txout.nValue < 0 then throw "bad-txns-vout-negative"
  else if txout.nValue > maxMoney then throw "bad-txns-vout-toolarge"
  else if !moneyRange (nValueOut + txout.nValue) then throw "bad-txns-txouttotal-toolarge"
  else if !txout.isEmpty && decide (txout.nValue < minTxoutAmount) &&
      (decide (tx.nVersion < 3) && !(isZeroAllowed tx.nTime && txout.nValue == 0)) then
    throw "bad-txns-txoutvalue-belowminimum"
  else pure (nValueOut + txout.nValue)

/-- The loop over `vin` that inserts each `prevout` into `vInOutPoints`; `seen` holds
the outpoints inserted so far. -/
def checkDuplicateInputs : (seen : List COutPoint) → List CTxIn → Except String Unit
  | _, [] => pure ()
  | seen, txin :: rest =>
    if txin.prevout ∈ seen then throw "bad-txns-inputs-duplicate"
    else checkDuplicateInputs (txin.prevout :: seen) rest

/-- The last check: a coinbase's `scriptSig` has 2 to 100 bytes, and no other
transaction spends the null outpoint. -/
def checkCoinBaseInputs (tx : CTransaction) : Except String Unit :=
  if tx.isCoinBase then
    let n := (tx.vin.headD ⟨COutPoint.null, [], 0, ⟨[]⟩⟩).scriptSig.length
    if n < 2 || n > 100 then throw "bad-cb-length" else pure ()
  else if tx.vin.any (·.prevout.isNull) then throw "bad-txns-prevout-null"
  else pure ()

/-- `CheckTransaction(tx, state)`: `.ok ()` for `true`, else the reject reason.  The size
is `GetSerializeSize(tx, PROTOCOL_VERSION | SERIALIZE_TRANSACTION_NO_WITNESS)`, whose
flag lands in the type argument, so the size counts the witness. -/
def checkTransaction (tx : CTransaction) : Except String Unit := do
  if tx.vin.isEmpty then throw "bad-txns-vin-empty"
  if tx.vout.isEmpty then throw "bad-txns-vout-empty"
  if getSerializeSizeTx tx (protocolVersion ||| Ser.serializeTransactionNoWitness) 0 *
      witnessScaleFactor > maxBlockWeight then
    throw "bad-txns-oversize"
  let _ ← tx.vout.foldlM (checkTxOut tx) 0
  checkDuplicateInputs [] tx.vin
  checkCoinBaseInputs tx

/-- `GetLegacySigOpCount(tx)`: the inexact count over every `scriptSig` and
`scriptPubKey`, as an `unsigned int`. -/
def getLegacySigOpCount (tx : CTransaction) : Nat :=
  ((tx.vin.map fun txin => Script.getSigOpCount txin.scriptSig).sum +
    (tx.vout.map fun txout => Script.getSigOpCount txout.scriptPubKey).sum) % 2 ^ 32

/-- `MIN_TX_FEE`. -/
def minTxFee : CAmount := cent / 10

/-- `MIN_TX_FEE_PREV7`. -/
def minTxFeePrev7 : CAmount := cent

/-- `PERKB_TX_FEE`. -/
def perkbTxFee : CAmount := cent

/-- `GetMinFee(nBytes, nTime)`: per byte after RFC-0007 (or for time zero), per started
kilobyte before, capped at `MAX_MONEY`. -/
def getMinFeeBytes (net : Network) (nBytes : Nat) (nTime : UInt32) : CAmount :=
  let nMinFee : CAmount :=
    if isProtocolV07 net nTime || nTime == 0 then
      if nBytes < 100 then minTxFee else nBytes * (perkbTxFee / 1000)
    else (1 + (nBytes : CAmount) / 1000) * perkbTxFee
  if !moneyRange nMinFee then maxMoney else nMinFee

/-- `GetMinFee(tx, nTimeTx)`: over `GetSerializeSize(tx, SER_NETWORK, PROTOCOL_VERSION)`. -/
def getMinFee (net : Network) (tx : CTransaction) (nTimeTx : UInt32) : CAmount :=
  getMinFeeBytes net (getSerializeSizeTx tx serNetwork protocolVersion) nTimeTx

/-! ## What a passing check establishes -/

section

variable {tx : CTransaction}

/-- The inversion of one output step: what a step that does not reject knows. -/
theorem checkTxOut_eq_ok {nValueOut v : CAmount} {txout : CTxOut}
    (h : checkTxOut tx nValueOut txout = .ok v) :
    v = nValueOut + txout.nValue ∧ moneyRange txout.nValue = true ∧ moneyRange v = true := by
  unfold checkTxOut at h
  split at h
  case isTrue => cases h
  case isFalse hneg =>
    split at h
    case isTrue => cases h
    case isFalse hbig =>
      split at h
      case isTrue => cases h
      case isFalse hsum =>
        have hv : v = nValueOut + txout.nValue := by
          split at h
          case isTrue => cases h
          case isFalse => exact (Except.ok.inj h).symm
        refine ⟨hv, ?_, ?_⟩
        · exact (moneyRange_iff _).mpr ⟨Int.not_lt.mp hneg, Int.not_lt.mp hbig⟩
        · simpa [hv] using hsum

/-- A transaction that passes `CheckTransaction` has an input, and each of its amounts is
in `MoneyRange`. -/
theorem checkTransaction_eq_ok (h : checkTransaction tx = .ok ()) :
    tx.vin ≠ [] ∧ ∀ txout ∈ tx.vout, moneyRange txout.nValue = true := by
  simp only [checkTransaction] at h
  split at h
  case isTrue => cases h
  case isFalse hvin =>
    refine ⟨by simpa using hvin, ?_⟩
    split at h
    case isTrue => cases h
    case isFalse =>
      split at h
      case isTrue => cases h
      case isFalse =>
        cases hloop : tx.vout.foldlM (checkTxOut tx) 0 with
        | error e => rw [hloop] at h; cases h
        | ok v =>
          intro txout htxout
          obtain ⟨_, _, hstep⟩ := Except.exists_step_of_foldlM hloop txout htxout
          exact (checkTxOut_eq_ok hstep).2.1

end

end Sumcoin
